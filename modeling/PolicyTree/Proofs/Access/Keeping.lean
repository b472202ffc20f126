import Mathlib.Tactic.Common
import PolicyTree.Proofs.Access.Asking
import PolicyTree.Proofs.Access.Governing
import PolicyTree.Proofs.Access.Keys
import PolicyTree.Proofs.Precedence

namespace PolicyTree

section

variable {entries : List Entry} {i : Item} {g : NodeId} {permissions : Permissions}

theorem allowPrivileges_evaluate_node : (evaluate entries { i with node := g }).allowPrivileges =
    (evaluate entries i).allowPrivileges := by
  rw [evaluate_eq, evaluate_eq]
  rfl

-- The node says which entries count for its parent, and these matter for removal alone.
theorem grants_evaluate_node (h : permissions.meets Permissions.removeNode = false) :
    (evaluate entries { i with node := g }).grants permissions =
      (evaluate entries i).grants permissions := by
  have mem {p : Nat} (hp : p ∈ permissions) : p ∈ (evaluate entries { i with node := g }).allows ↔
      p ∈ (evaluate entries i).allows := by
    have other : p ∉ Permissions.removeNode := fun hr =>
      absurd (FlagSet.meets_iff.2 ⟨p, hp, hr⟩) (by simp [h])
    rw [evaluate_eq, evaluate_eq, settled, settled, mem_permissionsFor, mem_permissionsFor]
    simp only [other, and_false, or_false]
    rfl
  rw [Bool.eq_iff_iff, Decision.grants, Decision.grants, decide_eq_true_iff, decide_eq_true_iff,
    FlagSet.subset_iff, FlagSet.subset_iff]
  exact forall₂_congr fun _ => mem

end

-- The node whose policies decide on a path, and whether the path leads to access control content.
def governor (tree : TreeView) (path : String) : Except AccessError (NodeHandle × Bool) :=
  locate tree path >>= governing tree

section

variable (s : Store) (r : Registry) (gone : NodeId → Prop) (ps : PrincipalSet)
  (steady : String → Prop)

-- These entries are what is collected for the node now, unless the node is gone.
def KeptEntries (k : EntryKey) (es : List Entry) : Prop :=
  gone k.node ∨ ∃ o, s.handle? k.node = some o ∧
    ∀ ps : PrincipalSet, ps.signature = k.principals → collect (s.view .initial) r ps o = .ok es

-- The decision is made with the entries that apply now, if not for the same node. It is for the
-- same node where the path is steady.
def KeptDecision (path : String) (d : Decision) : Prop :=
  ∃ es i g, Deems (s.view .initial) r ps path es i ∧ (steady path → g = i.node) ∧
    d = evaluate es { i with node := g }

-- The answer is whether the node may be read now, unless the node is gone.
def KeptRead (id : NodeId) (granted : Bool) : Prop :=
  gone id ∨ ∃ o es i, s.handle? id = some o ∧ Deems (s.view .initial) r ps o.path es i ∧
    granted = (evaluate es i).grants .read

end

variable {s base next : Store} {t : NodeTypes} {r : Registry} {gone gone' : NodeId → Prop}
  {ps : PrincipalSet} {steady : String → Prop} {path : String} {o node : NodeHandle}
  {es : List Entry} {k : EntryKey} {d : Decision} {id : NodeId} {granted isPolicyItem : Bool}

theorem grants_read_evaluate_node {entries : List Entry} {i : Item} {g : NodeId} :
    (evaluate entries { i with node := g }).grants .read = (evaluate entries i).grants .read :=
  grants_evaluate_node (by decide)

-- What is found out may be kept.

theorem Store.WellFormed.mem_of_handle (wf : s.WellFormed) (h : s.handle? id = some o) :
    id ∈ s.nodes := by
  obtain ⟨rfl, ns, hs, _⟩ := wf.handle_eq_some_iff.1 h
  exact Store.mem_nodes_iff.2 (wf.mem_of_stands hs)

theorem Store.WellFormed.handle_of_locate (wf : s.WellFormed)
    (hl : locate (s.view t) path = .ok node) : s.handle? node.id = some node := by
  cases valid : Path.validate path
  case error => simp [Store.locate_invalid valid] at hl
  case ok =>
    obtain ⟨ns, hv, rfl⟩ := Path.exists_names_of_validate valid
    have ⟨ms, x, located⟩ := Store.exists_locates s ns
    obtain rfl := Except.ok.inj ((wf.locate_eq hv located).symm.trans hl)
    exact wf.handle_eq located.stands

theorem readTarget_eq {item : Option NodeId} :
    EvaluatorM.readTarget (s.view t) path item = match item.bind s.handle? with
      | some node => .ok node
      | none => locate (s.view t) path := by
  cases item
  case none    => rfl
  case some id =>
    rw [EvaluatorM.readTarget, Store.view_nodeById, Option.bind_some]
    cases s.handle? id <;> rfl

theorem Store.WellFormed.handle_of_readTarget {item : Option NodeId} (wf : s.WellFormed)
    (ht : EvaluatorM.readTarget (s.view t) path item = .ok node) :
    s.handle? node.id = some node := by
  rw [readTarget_eq] at ht
  split at ht
  case h_2      => exact wf.handle_of_locate ht
  case h_1 o ho =>
    obtain rfl := Except.ok.inj ht
    have ⟨id, _, ho⟩ := Option.bind_eq_some_iff.1 ho
    obtain ⟨rfl, _⟩ := wf.handle_eq_some_iff.1 ho
    exact ho

-- The node that governs a path is given with the path where it stands.
theorem Store.WellFormed.handle_of_governor (wf : s.WellFormed)
    (hg : governor (s.view t) path = .ok (node, isPolicyItem)) :
    s.handle? node.id = some node := by
  obtain ⟨o, hl, hg⟩ := bind_eq_ok_iff.1 hg
  have ho := wf.handle_of_locate hl
  have ⟨n, hn⟩ := Store.mem_nodes_iff.1 (wf.mem_of_handle ho)
  exact Store.handle_of_governing hn ho hg

theorem keptEntries_of_collect (ho : s.handle? o.id = some o)
    (hc : collect (s.view .initial) r ps o = .ok es) : KeptEntries s r gone (.of ps o) es :=
  .inr ⟨o, ho, fun _ hs => (collect_congr (PrincipalSet.names_eq_of_signature_eq hs)).trans hc⟩

theorem KeptEntries.collect_eq (h : KeptEntries s r gone (.of ps o) es) (wf : s.WellFormed)
    (ho : s.handle? o.id = some o) (here : ∀ id ∈ s.nodes, ¬gone id) :
    collect (s.view .initial) r ps o = .ok es := by
  rcases h with h | ⟨o', ho', h⟩
  · exact absurd h (here _ (wf.mem_of_handle ho))
  · obtain rfl := Option.some_inj.1 (ho.symm.trans ho')
    exact h ps rfl

theorem sustains (wf : s.WellFormed) (here : ∀ id ∈ s.nodes, ¬gone id) :
    Sustains (s.view .initial) r ps (KeptEntries s r gone) (KeptDecision s r ps steady)
      (KeptRead s r gone ps) where
  entries hg hc := keptEntries_of_collect (wf.handle_of_governor hg) hc
  decisions {path node isPolicyItem es} hg he := by
    have hc := he.collect_eq wf (wf.handle_of_governor hg) here
    exact ⟨es, _, node.id, ⟨node, isPolicyItem, hg, hc, rfl⟩, fun _ => rfl, rfl⟩
  reads {path item node d} ht hd := by
    obtain ⟨es, i, g, deems, _, rfl⟩ := hd
    exact .inr ⟨node, es, i, wf.handle_of_readTarget ht, deems, grants_read_evaluate_node⟩

-- What is kept says what would be found out now.

theorem Deems.decideAfresh_eq {tree : TreeView} {i : Item} (h : Deems tree r ps path es i) :
    decideAfresh tree r ps path = .ok (evaluate es i) := by
  obtain ⟨node, isPolicyItem, hg, hc, rfl⟩ := h
  rw [PolicyTree.decideAfresh_eq, hg]
  show (collect tree r ps node >>= _) = _
  rw [hc]
  rfl

theorem KeptDecision.decideAfresh_eq (h : KeptDecision s r ps steady path d) :
    ∃ d', decideAfresh (s.view .initial) r ps path = .ok d' ∧
      d.allowPrivileges = d'.allowPrivileges ∧
      ∀ permissions : Permissions, permissions.meets Permissions.removeNode = false ∨ steady path →
        d.grants permissions = d'.grants permissions := by
  obtain ⟨es, i, g, deems, same, rfl⟩ := h
  refine ⟨_, deems.decideAfresh_eq, allowPrivileges_evaluate_node, fun permissions hp => ?_⟩
  rcases hp with hp | hp
  · exact grants_evaluate_node hp
  · rw [same hp]

theorem KeptRead.decideAfresh_eq (h : KeptRead s r gone ps o.id granted) (wf : s.WellFormed)
    (ho : s.handle? o.id = some o) (here : ∀ id ∈ s.nodes, ¬gone id) :
    ∃ d, decideAfresh (s.view .initial) r ps o.path = .ok d ∧ granted = d.grants .read := by
  rcases h with h | ⟨o', es, i, ho', deems, rfl⟩
  · exact absurd h (here _ (wf.mem_of_handle ho))
  · obtain rfl := Option.some_inj.1 (ho.symm.trans ho')
    exact ⟨_, deems.decideAfresh_eq, rfl⟩

-- Changes that name nobody's policy leave right what is kept.

section

variable (q : Store.Quiet base next) (stays : ∀ id, gone id → gone' id)
  (goes : ∀ id ∈ base.nodes, id ∉ next.nodes → gone' id)

include q

theorem Store.Quiet.handle_kept (ho : base.handle? id = some o) (hn : id ∈ next.nodes) :
    next.handle? id = some o := by
  obtain ⟨rfl, ns, hs, hp⟩ := q.before.handle_eq_some_iff.1 ho
  have ⟨n, hn⟩ := Store.mem_nodes_iff.1 hn
  exact q.after.handle_eq_some_iff.2 ⟨rfl, ns, q.follows.stands q.after hs hn, hp⟩

theorem Store.Quiet.collect_kept (ho : base.handle? id = some o) (hn : id ∈ next.nodes) :
    collect (next.view .initial) r ps o = collect (base.view .initial) r ps o := by
  obtain ⟨rfl, ns, hs, hp⟩ := q.before.handle_eq_some_iff.1 ho
  have ⟨n, hn⟩ := Store.mem_nodes_iff.1 hn
  have ho : o = ⟨o.id, Path.ofNames ns⟩ := hp ▸ rfl
  rw [ho]
  exact q.collect_eq hs (q.follows.stands q.after hs hn)

include stays goes in
theorem KeptEntries.quiet (h : KeptEntries base r gone k es) : KeptEntries next r gone' k es := by
  rcases h with h | ⟨o, ho, hc⟩
  · exact .inl (stays _ h)
  · by_cases hn : k.node ∈ next.nodes
    case neg => exact .inl (goes _ (q.before.mem_of_handle ho) hn)
    case pos =>
      refine .inr ⟨o, q.handle_kept ho hn, fun ps hps => ?_⟩
      rw [q.collect_kept ho hn]
      exact hc ps hps

theorem KeptDecision.quiet (h : KeptDecision base r ps steady path d)
    (leads : steady path →
      governor (base.view .initial) path = governor (next.view .initial) path) :
    KeptDecision next r ps steady path d := by
  obtain ⟨es, i, g, deems, same, rfl⟩ := h
  have ⟨g', deems'⟩ := q.deems deems
  refine ⟨es, _, g, deems', fun hp => ?_, rfl⟩
  obtain ⟨node, isPolicyItem, hg, _, rfl⟩ := deems
  obtain ⟨node', _, hg', _, hi⟩ := deems'
  have leads : governor _ path = governor _ path := leads hp
  rw [governor, governor, hg, hg'] at leads
  obtain ⟨rfl, -⟩ := Prod.mk.inj (Except.ok.inj leads)
  exact (same hp).trans (congrArg Item.node hi).symm

include stays goes in
theorem KeptRead.quiet (h : KeptRead base r gone ps id granted) :
    KeptRead next r gone' ps id granted := by
  rcases h with h | ⟨o, es, i, ho, deems, rfl⟩
  · exact .inl (stays _ h)
  · by_cases hn : id ∈ next.nodes
    case neg => exact .inl (goes _ (q.before.mem_of_handle ho) hn)
    case pos =>
      have ⟨g, deems'⟩ := q.deems deems
      exact .inr ⟨o, es, _, q.handle_kept ho hn, deems', grants_read_evaluate_node.symm⟩

end

end PolicyTree
