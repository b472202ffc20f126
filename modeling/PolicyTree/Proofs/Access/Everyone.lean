import PolicyTree.Proofs.Access.Governing
import PolicyTree.Proofs.Access.Removing
import PolicyTree.Proofs.Privilege.Accounts
import PolicyTree.Proofs.Repository.Operations
import PolicyTree.Repository.Providing

namespace PolicyTree

-- An entry as it is stored: for whom, which privileges, whether it allows, and how it is narrowed.
def Entry.terms (e : Entry) : String × List String × Bool × Restrictions :=
  (e.principal, e.privileges.map (·.name), e.isAllow, e.restrictions)

-- What one entry decides.

section

variable {e : Entry} {i : Item}

theorem evaluate_reading (allows : e.isAllow) (bits : e.bits = .read) (covers : e.covers i.path) :
    (evaluate [e] i).allowPrivileges = .read ∧
    (evaluate [e] i).allows = if i.isPolicyItem then ∅ else .read := by
  have atItem : i.atItem e := covers
  have permissions : ∀ parent : PrivilegeBits, parent = .read ∨ parent = ∅ →
      ∀ isPolicyItem, permissionsFor .read parent true isPolicyItem =
        if isPolicyItem then ∅ else .read := by
    rintro _ (rfl | rfl)
    · decide
    · decide
  simp only [evaluate_eq, settled, decided_singleton, allows, atItem, if_true, bits, true_and]
  refine permissions _ ?_ _
  cases i.atParent e
  case false => exact .inr rfl
  case true  => exact .inl rfl

theorem covers_of_root (unnarrowed : e.restrictions = ∅) (root : e.owner.path = Path.root)
    {ns : List String} : e.covers (Path.ofNames ns) := by
  have slash : (Path.ofNames ns).toList.head? = some '/' := by
    cases ns
    case nil  => rfl
    case cons => simp [Path.toList_ofNames]
  simp [Entry.covers, Entry.glob, Glob.covers, unnarrowed, root, Path.covers, slash]

end

theorem Entry.MadeFrom.known {r : Registry} {e : Entry} (h : e.MadeFrom r) :
    ∀ p ∈ e.privileges, r.get p.name = .ok p := by
  obtain ⟨privileges, known, made⟩ := h
  obtain ⟨_, _, _, _, he⟩ := make_eq_ok_iff.1 made
  intro p hp
  rw [← he] at hp
  exact known p ((mem_normalized known).1 hp)

theorem Registry.known_of_getAll {r : Registry} {names : List String} {l : List Privilege}
    {p : Privilege} (h : r.getAll names = .ok l) (hp : p ∈ l) :
    ∃ n : String, r.privileges[n]? = some p := by
  induction Registry.getAll_eq_ok_iff.1 h
  case nil => simp at hp
  case cons n q names l hn known hi =>
    obtain rfl | hp := List.mem_cons.1 hp
    · exact ⟨n, hn⟩
    · exact hi (Registry.getAll_eq_ok_iff.2 known) hp

namespace Store

variable {s : Store} {t : NodeTypes} {r : Registry} {ps : PrincipalSet} {everyone path : String}
  {o : NodeHandle} {n : Node} {p : Policy} {x q : NodeId} {ns : List String}

-- An entry that is read was made of privileges that the registry knows.
theorem WellFormed.madeFrom_of_load (wf : s.WellFormed)
    (named : ∀ {n : String} {q}, r.privileges[n]? = some q → q.name = n)
    (hn : s.nodes[o.id]? = some n) (hl : Policy.load (s.view t) r o = .ok (some p)) :
    ∀ e ∈ p.entries, e.MadeFrom r := by
  have made {e : NodeHandle} {m : Node} {entry : Entry} (hm : s.nodes[e.id]? = some m)
      (hr : Policy.readEntry (s.view t) r o e = .ok entry) : entry.MadeFrom r := by
    obtain ⟨_, names, privileges, _, _, known, made⟩ := (Policy.readEntry_eq_ok_iff hm).1 hr
    refine ⟨privileges, fun p hp => ?_, ?_⟩
    · obtain ⟨n, hn⟩ := Registry.known_of_getAll known hp
      rw [named hn]
      exact Registry.get_eq_ok_iff.2 hn
    · obtain ⟨_, _, _, _, rfl⟩ := Entry.make_eq_ok_iff.1 made
      exact made
  rw [Policy.load_eq wf hn] at hl
  cases hp : s.policyOf? t o.id <;> rw [hp] at hl
  case none => cases hl
  case some policy =>
    obtain ⟨q, hq, he⟩ := map_eq_ok_iff.1 hl
    obtain rfl := Option.some_inj.1 he
    refine Policy.foldlM_add_keeps (K := fun p => ∀ e ∈ p.entries, e.MadeFrom r)
      (by simp [Policy.empty]) (fun p entry hp e he read => ?_) hq
    obtain ⟨m, hm⟩ := entry_exists wf (wf.mem_entry_handles.1 he).1
    unfold Policy.add
    split
    case isTrue  => exact hp
    case isFalse =>
      simp only [List.mem_append, List.mem_singleton, or_imp, forall_and, forall_eq]
      exact ⟨hp, made hm read⟩

-- The one policy is that of the root. It lists what is given by default: administrators may do
-- everything, if there are any, and everyone may read.
structure HasDefaultPolicy (s : Store) (t : NodeTypes) (r : Registry) (everyone : String) :
    Prop where
  entries : ∃ policy, Policy.load (s.view t) r ⟨s.root, Path.root⟩ = .ok (some policy) ∧
    ∃ administrators : Option String, everyone ∉ administrators ∧
      (policy.entries.map Entry.terms).Perm
        ((everyone, [Privilege.readName], true, ∅) ::
          administrators.toList.map fun name => (name, [Privilege.allName], true, ∅))
  alone   : ∀ id, s.IsPolicyItem t id → ∃ policy, s.policyOf? t s.root = some policy ∧
    (id = policy ∨ id ∈ s.entriesOf t policy)

theorem WellFormed.parent_of_entriesOf (wf : s.WellFormed) (hx : x ∈ s.entriesOf t q) :
    s.IsParent q x := by
  have hc := (List.mem_filter.1 hx).1
  cases hq : s.nodes[q]?
  case none    => simp [hq] at hc
  case some qn => exact wf.child hq (by simpa [hq] using hc)

theorem WellFormed.parent_of_policyOf (wf : s.WellFormed) (hq : s.policyOf? t x = some q) :
    s.IsParent x q ∧ Policy.listType ∈ s.effectiveTypes t q := by
  obtain ⟨xn, hx⟩ : ∃ xn, s.nodes[x]? = some xn := by
    by_cases controlled : Policy.mixin ∈ s.effectiveTypes t x
    case pos => exact exists_of_mem_effectiveTypes controlled
    case neg => simp [policyOf?, controlled] at hq
  obtain ⟨_, list, qn, hqn, parent, _⟩ := (policyOf_eq_some_iff wf hx).1 hq
  exact ⟨⟨qn, hqn, parent⟩, list⟩

theorem IsParent.unique {y y' : NodeId} (h : s.IsParent y x) (h' : s.IsParent y' x) : y = y' := by
  obtain ⟨n, hn, hp⟩ := h
  obtain ⟨n', hn', hp'⟩ := h'
  obtain rfl := Option.some_inj.1 (hn.symm.trans hn')
  exact Option.some_inj.1 (hp.symm.trans hp')

theorem WellFormed.not_isParent_root (wf : s.WellFormed) : ¬s.IsParent x s.root := by
  rintro ⟨n, hn, hp⟩
  obtain ⟨n', hn', hp'⟩ := wf.root
  obtain rfl := Option.some_inj.1 (hn.symm.trans hn')
  exact nomatch hp.symm.trans hp'

theorem WellFormed.root_mem_lineage {way : List (NodeId × Node)} (wf : s.WellFormed)
    (hs : s.Stands ns x) (hw : s.lineage? x = some way) : s.root ∈ way.map (·.1) := by
  have ⟨way', hw', _, stands⟩ := wf.lineage_eq hs
  obtain rfl := Option.some_inj.1 (hw.symm.trans hw')
  have unique : Relator.BiUnique s.Stands :=
    ⟨fun _ _ _ => wf.stands_unique, fun _ _ _ => wf.stands_inj⟩
  exact (List.rel_mem unique .root stands).1 (by simp)

namespace HasDefaultPolicy

variable (h : s.HasDefaultPolicy t r everyone) (wf : s.WellFormed)

include h wf

-- A list of another node than the root would be an entry of the policy of the root, and its entries
-- would be further below.
theorem entriesOf_eq_nil (hx : x ≠ s.root) (hq : s.policyOf? t x = some q) :
    s.entriesOf t q = [] := by
  have ⟨parent, list⟩ := wf.parent_of_policyOf hq
  have ⟨policy, hp, content⟩ := h.alone q (.inl list)
  have ⟨top, _⟩ := wf.parent_of_policyOf hp
  have entry : q ∈ s.entriesOf t policy := by
    refine content.resolve_left ?_
    rintro rfl
    exact hx (parent.unique top)
  have below := wf.parent_of_entriesOf entry
  refine List.eq_nil_iff_forall_not_mem.2 fun e he => ?_
  have parent' := wf.parent_of_entriesOf he
  have ⟨policy', hp', content'⟩ := h.alone e (.inr (of_decide_eq_true (List.mem_filter.1 he).2))
  obtain rfl := Option.some_inj.1 (hp.symm.trans hp')
  obtain rfl | he' := content'
  · obtain rfl := parent'.unique top
    exact wf.not_isParent_root below
  · obtain rfl := parent'.unique (wf.parent_of_entriesOf he')
    obtain rfl := below.unique top
    exact wf.not_isParent_root top

theorem not_malformed (x : NodeId) : ¬s.Malformed t r x := by
  by_cases hx : x = s.root
  case pos =>
    subst hx
    obtain ⟨rn, hr, _⟩ := wf.root
    obtain ⟨policy, hl, _⟩ := h.entries
    exact (wf.load_isOk_iff (o := ⟨s.root, Path.root⟩) hr).1 ⟨_, hl⟩
  case neg =>
    rintro ⟨q, hq, e, he, _⟩
    simp [h.entriesOf_eq_nil wf hx hq] at he

theorem listAt_eq_nil (hx : x ≠ s.root) : s.listAt t r x = [] := by
  rw [listAt]
  cases ho : s.handle? x
  case none => rfl
  case some o =>
    obtain ⟨rfl, ns, hs, _⟩ := wf.handle_eq_some_iff.1 ho
    obtain ⟨n, hn⟩ := wf.mem_of_stands hs
    rw [Option.map_some, Policy.load_eq wf hn]
    cases hq : s.policyOf? t o.id
    case none   => rfl
    case some q =>
      simp only [h.entriesOf_eq_nil wf hx hq]
      rfl

-- For everyone the root lists one entry, which allows to read.
theorem exists_entry {customs : List Privilege} (ledger : Registry.Ledger customs r) :
    ∃ e, (s.listAt t r s.root).filter (·.principal = everyone) = [e] ∧ e.isAllow ∧
      e.bits = .read ∧ e.restrictions = ∅ ∧ e.owner.path = Path.root := by
  obtain ⟨rn, hr, _⟩ := wf.root
  obtain ⟨policy, hl, administrators, other, listed⟩ := h.entries
  have listAt : s.listAt t r s.root = policy.entries := by
    have handle : s.handle? s.root = some ⟨s.root, Path.root⟩ := wf.handle_eq .root
    rw [Store.listAt, handle, Option.map_some, hl]
  have one : ((policy.entries.filter (·.principal = everyone)).map Entry.terms) =
      [(everyone, [Privilege.readName], true, ∅)] := by
    have others : (administrators.toList.map fun name =>
        (name, [Privilege.allName], true, (∅ : Restrictions))).filter (·.1 = everyone) = [] := by
      cases administrators
      case none   => rfl
      case some a =>
        have : a ≠ everyone := fun hc => other (hc ▸ rfl)
        simp [this]
    have := listed.filter (·.1 = everyone)
    rw [List.filter_map, List.filter_cons_of_pos (by simp), others] at this
    exact List.perm_singleton.1 this
  obtain ⟨e, he, terms⟩ := List.map_eq_singleton_iff.1 one
  have hm : e ∈ policy.entries := List.mem_of_mem_filter (he ▸ List.mem_singleton_self e)
  have owner := wf.owner_of_load hr hl e hm
  obtain ⟨_, names, allows, unnarrowed⟩ : e.principal = everyone ∧
      e.privileges.map (·.name) = [Privilege.readName] ∧ e.isAllow = true ∧ e.restrictions = ∅ := by
    simpa [Entry.terms] using terms
  refine ⟨e, by rw [listAt, he], allows, ?_, unnarrowed, congrArg NodeHandle.path owner⟩
  obtain ⟨p, hp, name⟩ := List.map_eq_singleton_iff.1 names
  have known : r.get p.name = .ok p := by
    have named {n : String} {q : Privilege} (hq : r.privileges[n]? = some q) : q.name = n :=
      (ledger.getElem?_iff.1 hq).2
    exact (wf.madeFrom_of_load named hr hl e hm).known p (hp ▸ List.mem_singleton_self p)
  have read := ledger.knows (p := .concrete Privilege.readName .read) (by simp [Privilege.builtin])
  rw [name, Registry.get_eq_ok_iff] at known
  obtain rfl := Option.some_inj.1 (read.symm.trans known)
  rw [Entry.bits, hp]
  rfl

theorem entriesOn_eq {e : Entry} {ids : List NodeId} (names : ps.names = [everyone])
    (he : (s.listAt t r s.root).filter (·.principal = everyone) = [e]) (nodup : ids.Nodup)
    (root : s.root ∈ ids) : s.entriesOn t r ps ids = [e] := by
  obtain ⟨below, above, rfl⟩ := List.append_of_mem root
  have none {l : List NodeId} (hl : s.root ∉ l) :
      l.flatMap (fun id => (s.listAt t r id).filter (·.principal = everyone)) = [] := by
    refine List.flatMap_eq_nil_iff.2 fun x hx => ?_
    have : x ≠ s.root := fun hc => hl (hc ▸ hx)
    rw [h.listAt_eq_nil wf this, List.filter_nil]
  have others : s.root ∉ below ++ above := (List.nodup_middle.1 nodup).notMem
  rw [List.mem_append, not_or] at others
  rw [entriesOn, names, List.flatMap_singleton, List.flatMap_append, List.flatMap_cons, he,
    none others.1, none others.2]
  rfl

-- Content is governed by the node two or one above.
theorem governing_eq (hs : s.Stands ns x) : ∃ g, governing (s.view t) ⟨x, Path.ofNames ns⟩ =
    .ok (g, decide (s.IsPolicyItem t x)) := by
  obtain ⟨n, hn⟩ := wf.mem_of_stands hs
  have up {y z : NodeId} (path : String) (hp : s.IsParent z y) :
      ∃ ks, (s.view t).parent ⟨y, path⟩ = .ok (some ⟨z, Path.ofNames ks⟩) := by
    obtain ⟨m, hm, hp⟩ := hp
    obtain ⟨zn, hz, _⟩ := wf.listed hm hp
    obtain ⟨ks, hks⟩ := wf.stands hz
    exact ⟨ks, wf.view_parent hm hp hks⟩
  rw [governing_of_isType (view_isType hn) (view_isType hn)]
  by_cases content : s.IsPolicyItem t x
  case neg =>
    obtain ⟨list, entry⟩ := not_or.1 content
    exact ⟨⟨x, Path.ofNames ns⟩, by simp [list, entry, content]⟩
  case pos =>
    obtain ⟨policy, hp, place⟩ := h.alone x content
    obtain ⟨top, isList⟩ := wf.parent_of_policyOf hp
    by_cases list : Policy.listType ∈ s.effectiveTypes t x
    case pos =>
      obtain ⟨o, parent⟩ : ∃ o, s.IsParent o x :=
        place.elim (fun hx => ⟨_, hx ▸ top⟩) fun he => ⟨_, wf.parent_of_entriesOf he⟩
      obtain ⟨ks, hks⟩ := up (Path.ofNames ns) parent
      refine ⟨⟨o, Path.ofNames ks⟩, ?_⟩
      rw [ownerAbove_succ hks]
      simp [list, content, ownerAbove]
    case neg =>
      have entry := content.resolve_left list
      have he : x ∈ s.entriesOf t policy := by
        refine place.resolve_left ?_
        rintro rfl
        exact list isList
      obtain ⟨ks, hks⟩ := up (Path.ofNames ns) (wf.parent_of_entriesOf he)
      obtain ⟨ls, hls⟩ := up (Path.ofNames ks) top
      refine ⟨⟨s.root, Path.ofNames ls⟩, ?_⟩
      rw [ownerAbove_succ (k := 1) hks, ownerAbove_succ hls]
      simp [list, entry, content, ownerAbove]

-- What is decided for everyone on a path hangs on the kind of the node that it leads to.
theorem decideAfresh_eq {customs : List Privilege} {ms : List String}
    (ledger : Registry.Ledger customs r) (names : ps.names = [everyone])
    (hv : ∀ n ∈ ns, Path.IsSegment n) (hl : Locates s ns ms x) :
    ∃ d, decideAfresh (s.view t) r ps (Path.ofNames ns) = .ok d ∧ d.allowPrivileges = .read ∧
      d.allows = if s.IsPolicyItem t x then ∅ else .read := by
  obtain ⟨g, hg⟩ := h.governing_eq wf hl.stands
  have leads : governor (s.view t) (Path.ofNames ns) = .ok (g, decide (s.IsPolicyItem t x)) := by
    rw [governor, wf.locate_eq hv hl]
    exact hg
  obtain ⟨way, hw, decided⟩ := wf.decideAfresh_of_governor ps (h.not_malformed wf) leads
  obtain ⟨_, ks, hs, _⟩ := wf.handle_eq_some_iff.1 (wf.handle_of_governor leads)
  obtain ⟨e, he, allows, bits, unnarrowed, root⟩ := h.exists_entry wf ledger
  rw [h.entriesOn_eq wf names he (wf.nodup_lineage hs hw) (wf.root_mem_lineage hs hw)] at decided
  obtain ⟨privileges, permissions⟩ := evaluate_reading
    (i := ⟨Path.ofNames ns, g.id, s.IsPolicyItem t x⟩) allows bits (covers_of_root unnarrowed root)
  exact ⟨_, decided, privileges, by simpa using permissions⟩

end HasDefaultPolicy

theorem view_isContent (hn : s.nodes[o.id]? = some n) :
    Policy.isContent (s.view t) o = .ok (s.IsPolicyItem t o.id : Bool) := by
  rw [Policy.isContent, view_isType hn, view_isType hn]
  by_cases list : Policy.listType ∈ s.effectiveTypes t o.id <;> simp [list, IsPolicyItem]

end Store

variable {s : Store} {t : NodeTypes} {r : Registry} {ps : PrincipalSet} {b : Bench} {path : String}

-- What is asked for lies in what may be read if and only if it is to read, and only that.
theorem subset_read_iff {permissions : Permissions} (some : permissions ≠ ∅) {content : Prop}
    [Decidable content] :
    permissions ⊆ (if content then ∅ else Permissions.read) ↔
      permissions = Permissions.read ∧ ¬content := by
  have ⟨i, hi⟩ := FlagSet.exists_mem_of_ne_empty some
  by_cases hc : content
  case pos =>
    rw [if_pos hc]
    have : ¬permissions ⊆ ∅ := fun h => FlagSet.not_mem_empty (FlagSet.subset_iff.1 h i hi)
    simp [this, hc]
  case neg =>
    rw [if_neg hc]
    constructor
    case mpr =>
      rintro ⟨rfl, _⟩
      exact FlagSet.subset_iff.2 fun _ => id
    case mp =>
      intro h
      have only {j : Nat} (hj : j ∈ permissions) : j = 0 :=
        (FlagSet.mem_single.1 (FlagSet.subset_iff.1 h j hj)).1
      obtain rfl := only hi
      refine ⟨FlagSet.ext fun j => ⟨FlagSet.subset_iff.1 h j, fun hj => ?_⟩, hc⟩
      rw [(FlagSet.mem_single.1 hj).1]
      exact hi

theorem ReadOnly.grants_eq {tree : TreeView} {content : Bool} {permissions : Permissions}
    (h : isContent tree path = .ok content) :
    grants tree path permissions = .ok (permissions = .read ∧ ¬content : Bool) := by
  rw [grants, h]
  by_cases hp : permissions = .read <;> simp [hp]

-- On every path, the short cut for everyone and an evaluator that weighs entries for nobody else
-- answer alike what is granted and what may be read, and off access control content also which
-- privileges there are.
theorem everyone_is_answered_alike {calls : List Registration} {everyone : String}
    (wf : s.WellFormed) (h : s.HasDefaultPolicy t (Registry.after calls) everyone)
    (hps : ps.isEveryone everyone) (hb : b.AtHome s t (Registry.after calls) ps)
    (valid : Path.validate path = .ok ()) :
    let tree := s.view t
    let answer {α : Type} (work : EvaluatorM α) := (work.run.run b).1
    (∀ permissions : Permissions, permissions ≠ ∅ → ∃ granted,
      ReadOnly.grants tree path permissions = .ok granted ∧
      answer (.grants tree (Registry.after calls) path permissions) = .ok granted) ∧
    (∃ granted, ReadOnly.grants tree path .read = .ok granted ∧
      answer (.canRead tree (Registry.after calls) path none) = .ok granted) ∧
    ∃ node content, locate tree path = .ok node ∧ Policy.isContent tree node = .ok content ∧
      (content = false → ∃ privileges, ReadOnly.privileges tree path = .ok privileges ∧
        answer (.privileges tree (Registry.after calls) path) = .ok privileges) := by
  intro tree answer
  have names : ps.names = [everyone] := by
    rw [PrincipalSet.names, eq_of_beq hps]
    rfl
  have ledger := Registry.ledger_after calls
  obtain ⟨ns, hv, rfl⟩ := Path.exists_names_of_validate valid
  obtain ⟨ms, x, hl⟩ := Store.exists_locates s ns
  have ⟨n, hn⟩ := wf.mem_of_stands hl.stands
  have located := wf.locate_eq (t := t) hv hl
  have content := Store.view_isContent (t := t) (o := ⟨x, Path.ofNames ms⟩) hn
  have shortCut : ReadOnly.isContent tree (Path.ofNames ns) = .ok (s.IsPolicyItem t x : Bool) := by
    rw [ReadOnly.isContent, located]
    exact liftM_tree_eq_ok_iff.2 content
  refine ⟨fun permissions some => ⟨_, ReadOnly.grants_eq shortCut, ?_⟩,
    ⟨_, ReadOnly.grants_eq shortCut, ?_⟩, _, _, located, content, fun plain => ?_⟩
  · have ⟨d, decided, _, allows⟩ := h.decideAfresh_eq wf ledger names hv hl
    refine (hb.grants wf).trans ?_
    rw [decided]
    refine congrArg Except.ok (decide_eq_decide.2 ?_)
    rw [allows, subset_read_iff some]
    simp
  · have ⟨d, decided, _, allows⟩ := h.decideAfresh_eq wf ledger names
      (wf.isSegment_of_stands hl.stands) (.of_stands hl.stands)
    refine (hb.canRead wf located).trans ?_
    rw [decided]
    refine congrArg Except.ok (decide_eq_decide.2 ?_)
    rw [allows, subset_read_iff (by decide)]
    simp
  · have ⟨d, decided, privileges, _⟩ := h.decideAfresh_eq wf ledger names hv hl
    refine ⟨.read, ?_, ?_⟩
    · rw [ReadOnly.privileges, shortCut, plain]
      rfl
    · refine (hb.privileges wf).trans ?_
      rw [decided]
      exact congrArg Except.ok privileges

-- A page below a root with the policy that a provider gives it.
def furnished : Store := (Store.initial ⟨0⟩ "rep:root").afterAll [
  ⟨.addMixin ⟨⟨0⟩, "/"⟩ "rep:AccessControllable", ⟨1⟩⟩,
  ⟨.addNode ⟨⟨0⟩, "/"⟩ "rep:policy" "rep:ACL", ⟨1⟩⟩,
  ⟨.addNode ⟨⟨1⟩, "/rep:policy"⟩ "allow" "rep:GrantACE", ⟨2⟩⟩,
  ⟨.setProperty ⟨⟨2⟩, "/rep:policy/allow"⟩ "rep:principalName" (.string "administrators"), ⟨3⟩⟩,
  ⟨.setProperty ⟨⟨2⟩, "/rep:policy/allow"⟩ "rep:privileges" (.names ["jcr:all"]), ⟨3⟩⟩,
  ⟨.addNode ⟨⟨1⟩, "/rep:policy"⟩ "allow1" "rep:GrantACE", ⟨3⟩⟩,
  ⟨.setProperty ⟨⟨3⟩, "/rep:policy/allow1"⟩ "rep:principalName" (.string "everyone"), ⟨4⟩⟩,
  ⟨.setProperty ⟨⟨3⟩, "/rep:policy/allow1"⟩ "rep:privileges" (.names ["jcr:read"]), ⟨4⟩⟩,
  ⟨.addNode ⟨⟨0⟩, "/"⟩ "page" "nt:unstructured", ⟨4⟩⟩]

open Repository in
example : ((Repository.initial .initial).after (ε := TreeError) (login .empty)
    |>.after (ε := TreeError) (addProvider .initial)
    |>.after (initProvider 0 0 ["administrators"])
    |>.after (inSession 0 (SessionM.addNode ⟨⟨0⟩, "/"⟩ "page" "nt:unstructured"))
    |>.after (save 0)).saved.store = furnished := by
  decide +kernel

theorem furnished_hasDefaultPolicy :
    furnished.HasDefaultPolicy .initial (Registry.after []) "everyone" where
  entries := by
    let root : NodeHandle := ⟨⟨0⟩, "/"⟩
    let administrators : Entry := ⟨"administrators", [.all], true, ∅, root⟩
    let everyone : Entry := ⟨"everyone", [.concrete "jcr:read" .read], true, ∅, root⟩
    have loaded : Policy.load (furnished.view .initial) (Registry.after [])
        ⟨furnished.root, Path.root⟩ =
        .ok (some ⟨root, [administrators, everyone]⟩) := by
      decide +kernel
    exact ⟨_, loaded, some "administrators", by decide, .swap ..⟩
  alone id content := by
    have ⟨n, hn⟩ := content.elim Store.exists_of_mem_effectiveTypes
      Store.exists_of_mem_effectiveTypes
    have kinds : ∀ id ∈ furnished.nodes.keys,
        furnished.IsPolicyItem .initial id →
        id = ⟨1⟩ ∨ id ∈ furnished.entriesOf .initial ⟨1⟩ := by
      decide +kernel
    have policy : furnished.policyOf? .initial furnished.root = some ⟨1⟩ := by
      decide +kernel
    have hid := Std.ExtTreeMap.mem_keys.2 (Store.mem_nodes_iff.2 ⟨n, hn⟩)
    exact ⟨⟨1⟩, policy, kinds id hid content⟩

theorem page_is_read_by_everyone :
    let s := furnished
    let everyone := PrincipalSet.ofList [.named "everyone"]
    let b : Bench := ⟨.detached everyone 0 8 8, .new 8 ⟨0⟩⟩
    let r := Registry.after []
    let path := "/page/title"
    s.WellFormed ∧ s.HasDefaultPolicy .initial r "everyone" ∧ everyone.isEveryone "everyone" ∧
    b.AtHome s .initial r everyone ∧ Path.validate path = .ok () ∧
    ((EvaluatorM.grants (s.view .initial) r path .read).run.run b).1 = .ok true ∧
    ((EvaluatorM.canRead (s.view .initial) r path none).run.run b).1 = .ok true ∧
    ((EvaluatorM.privileges (s.view .initial) r path).run.run b).1 = .ok .read := by
  intro s everyone b r path
  have wf : s.WellFormed := (Store.reachable_afterAll (by decide +kernel)).wellFormed
  have default : s.HasDefaultPolicy .initial r "everyone" := furnished_hasDefaultPolicy
  have only : everyone.isEveryone "everyone" := by decide
  have atHome : b.AtHome s .initial r everyone := .of_fresh .detached
  have valid : Path.validate path = .ok () := by decide
  have page : locate (s.view .initial) path = .ok ⟨⟨4⟩, "/page"⟩ := by decide +kernel
  have ordinary : Policy.isContent (s.view .initial) ⟨⟨4⟩, "/page"⟩ = .ok false := by
    decide +kernel
  have shortCut : ReadOnly.grants (s.view .initial) path .read = .ok true ∧
      ReadOnly.privileges (s.view .initial) path = .ok .read := by
    decide +kernel
  have ⟨grants, ⟨_, mayRead, reads⟩, _, _, located, kind, privileges⟩ :=
    everyone_is_answered_alike wf default only atHome valid
  have ⟨_, granted, grants⟩ := grants .read (by decide)
  obtain rfl := Except.ok.inj (page.symm.trans located)
  obtain rfl := Except.ok.inj (ordinary.symm.trans kind)
  have ⟨_, held, privileges⟩ := privileges rfl
  obtain rfl := Except.ok.inj (shortCut.1.symm.trans mayRead)
  obtain rfl := Except.ok.inj (shortCut.1.symm.trans granted)
  obtain rfl := Except.ok.inj (shortCut.2.symm.trans held)
  exact ⟨wf, default, only, atHome, valid, grants, reads, privileges⟩

end PolicyTree
