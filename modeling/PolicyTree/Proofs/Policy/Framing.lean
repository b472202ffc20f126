import PolicyTree.Proofs.Policy.Curating

namespace PolicyTree

def Node.gain (mixins : List String) (n : Node) : Node := { n with mixins := n.mixins ++ mixins }

namespace Store

variable {s s' base : Store} {t : NodeTypes} {owner policy id p x : NodeId} {n : Node}
  {mixins : List String} {name type : String}

-- A node goes by the name of the policy of another, or is below that.
def InPolicy (s : Store) (owner x : NodeId) : Prop :=
  ∃ top, s.child? owner Policy.nodeName = some top ∧ s.isWithin top x

def lackedMixins (s : Store) (t : NodeTypes) (owner : NodeId) : List String :=
  if Policy.mixin ∈ s.effectiveTypes t owner then [] else [Policy.mixin]

-- A node has lost its policy, with all that was below it, and gained some mixins.
structure Cleared (s s' : Store) (owner : NodeId) (mixins : List String) : Prop where
  root : s'.root = s.root
  gone : ∀ {x : NodeId}, s.InPolicy owner x → s'.nodes[x]? = none
  kept : ∀ {x : NodeId}, ¬s.InPolicy owner x → s'.nodes[x]? = (s.nodes[x]?).map fun n =>
    if x = owner then
      { n.gain mixins with
        children := n.children.filter fun c => s.child? owner Policy.nodeName ≠ some c }
    else n

-- A node has got a policy as its last child. All that is new belongs to the policy.
structure Renewed (base s : Store) (owner policy : NodeId) : Prop where
  root  : s.root = base.root
  fresh : policy ∉ base.nodes
  named : ∃ n, s.nodes[policy]? = some n ∧ n.parent = some owner ∧ n.name = Policy.nodeName
  kept  : ∀ {x : NodeId}, x ∈ base.nodes → s.nodes[x]? = (base.nodes[x]?).map fun n =>
    if x = owner then { n with children := n.children ++ [policy] } else n
  new   : ∀ {x : NodeId} {n : Node}, s.nodes[x]? = some n → x ∉ base.nodes →
    x = policy ∨ n.parent = some policy

-- A node has got a new policy in the place of the one that it had.
def Rewritten (s s' : Store) (owner : NodeId) (mixins : List String) : Prop :=
  ∃ base policy, base.WellFormed ∧ s.Cleared base owner mixins ∧ base.Renewed s' owner policy

-- Where nodes stand.

theorem Follows.pathOf_eq (f : Follows s s') (wf : s.WellFormed) (wf' : s'.WellFormed)
    (h : x ∈ s'.nodes ↔ x ∈ s.nodes) : s'.pathOf? x = s.pathOf? x := by
  by_cases hx : x ∈ s.nodes
  case pos =>
    have ⟨n, hn⟩ := mem_nodes_iff.1 hx
    have ⟨n', hn'⟩ := mem_nodes_iff.1 (h.2 hx)
    have ⟨ns, hs⟩ := wf.stands hn
    rw [wf.pathOf_eq hs, wf'.pathOf_eq (f.stands wf' hs hn')]
  case neg =>
    have none {s : Store} (wf : s.WellFormed) (hx : x ∉ s.nodes) : s.pathOf? x = none := by
      rw [Option.eq_none_iff_forall_ne_some, ← not_exists, wf.pathOf_isSome_iff, ← mem_nodes_iff]
      exact hx
    rw [none wf hx, none wf' (h.not.2 hx)]

-- Gaining mixins moves nothing.

theorem Edited.leadsTo_eq {edit : Node → Node} (h : Edited s s' id edit) :
    LeadsTo s'.nodes = LeadsTo s.nodes := by
  funext p c
  refine propext ⟨fun ⟨n', hn', hc⟩ => ?_, fun ⟨n, hn, hc⟩ => ?_⟩
  · have ⟨n, hn, e⟩ := WellFormed.before_edit h hn'
    exact ⟨n, hn, e.children ▸ hc⟩
  · have ⟨n', hn', e⟩ := WellFormed.after_edit h hn
    exact ⟨n', hn', e.children ▸ hc⟩

theorem Edited.isWithin_iff {edit : Node → Node} (h : Edited s s' id edit) :
    s'.isWithin p x ↔ s.isWithin p x := by
  rw [isWithin_iff_leads, isWithin_iff_leads, h.leadsTo_eq]
  exact and_congr_left fun _ => ⟨h.mem, h.mem_of_mem⟩

theorem Edited.child_eq {edit : Node → Node} (wf : s.WellFormed) (h : Edited s s' id edit) :
    s'.child? p name = s.child? p name := by
  cases hp : s.nodes[p]?
  case none => simp [child?, h.nodes, hp]
  case some pn =>
    obtain ⟨pn', hp', _⟩ := WellFormed.after_edit h hp
    refine Option.ext fun c => ?_
    rw [wf.child_eq_some_iff hp, (wf.edited h).child_eq_some_iff hp']
    constructor
    case mp =>
      rintro ⟨n', hn', hc, hname⟩
      obtain ⟨n, hn, e⟩ := WellFormed.before_edit h hn'
      exact ⟨n, hn, e.parent ▸ hc, e.name ▸ hname⟩
    case mpr =>
      rintro ⟨n, hn, hc, hname⟩
      obtain ⟨n', hn', e⟩ := WellFormed.after_edit h hn
      exact ⟨n', hn', e.parent.trans hc, e.name.trans hname⟩

theorem edited_of_gain_nil (hn : s.nodes[id]? = some n) : Edited s s id (Node.gain []) := by
  refine ⟨rfl, ⟨n, hn, rfl, rfl, rfl, rfl, by simp [Node.gain], fun _ => .inl⟩, fun x => ?_⟩
  simp [Node.gain]

theorem edited_of_addMixin_of_lacked {mixin : String} (hm : mixin ∉ s.effectiveTypes t id)
    (h : s.addMixin id mixin = .ok s') : Edited s s' id (Node.gain [mixin]) := by
  have e := edited_of_addMixin h
  have ⟨n, hn, _⟩ := e.node
  have lacked : mixin ∉ n.mixins := fun hc => hm <| (mem_effectiveTypes hn).2 <|
    NodeTypes.mem_expand.2 ⟨mixin, List.mem_cons_of_mem _ hc, .refl⟩
  refine ⟨e.root, ⟨n, hn, rfl, rfl, rfl, rfl, List.prefix_append .., fun _ => .inl⟩, fun x => ?_⟩
  rw [e.nodes]
  by_cases hx : x = id
  case pos => subst hx; simp [hn, lacked, Node.gain]
  case neg => simp [hx]

-- Clearing.

theorem cleared_of_no_child (e : Edited s s' owner (Node.gain mixins))
    (hc : s.child? owner Policy.nodeName = none) : Cleared s s' owner mixins where
  root := e.root
  gone := by
    rintro x ⟨top, ht, _⟩
    exact nomatch hc.symm.trans ht
  kept {x} _ := by
    rw [e.nodes]
    simp [hc, Node.gain]

theorem cleared_of_removed (wf : s.WellFormed) {mid : Store}
    (e : Edited s mid owner (Node.gain mixins)) (hc : mid.child? owner Policy.nodeName = some id)
    (r : Removed mid s' id p) : Cleared s s' owner mixins := by
  have ⟨n, hn, _⟩ := e.node
  have ⟨n', hn', _⟩ := WellFormed.after_edit e hn
  have ⟨m, hm, hmo, _⟩ := ((wf.edited e).child_eq_some_iff hn').1 hc
  have ⟨m', hm', hp⟩ := r.node
  obtain rfl := Option.some_inj.1 (hm.symm.trans hm')
  obtain rfl := Option.some_inj.1 (hmo.symm.trans hp)
  have before := e.child_eq wf ▸ hc
  have within {x : NodeId} : s.InPolicy owner x ↔ mid.isWithin id x := by
    simp [InPolicy, before, e.isWithin_iff]
  refine ⟨r.root.trans e.root, fun hx => ?_, fun {x} hx => ?_⟩
  · rw [r.nodes, if_pos (within.1 hx)]
  · rw [r.nodes, if_neg (within.not.1 hx), e.nodes, Option.map_map]
    congr 1
    funext n
    by_cases hxo : x = owner
    case pos => simp [hxo, before, Node.gain, eq_comm]
    case neg => simp [hxo]

theorem Cleared.mem_iff (h : Cleared s s' owner mixins) :
    x ∈ s'.nodes ↔ x ∈ s.nodes ∧ ¬s.InPolicy owner x := by
  rw [mem_nodes_iff, mem_nodes_iff]
  by_cases hx : s.InPolicy owner x
  case pos => simp [h.gone hx, hx]
  case neg => simp [h.kept hx, hx]

-- Renewing.

theorem renewed_of_added (h : Added s s' policy owner Policy.nodeName type) :
    Renewed s s' owner policy where
  root  := h.root
  fresh := fun hx => by simpa [h.fresh] using mem_nodes_iff.1 hx
  named := ⟨_, by rw [h.nodes, if_pos rfl], rfl, rfl⟩
  kept {x} hx := by
    have : x ≠ policy := by
      rintro rfl
      simpa [h.fresh] using mem_nodes_iff.1 hx
    rw [h.nodes, if_neg this]
    congr 1
    funext n
    by_cases hxo : x = owner <;> simp [hxo]
  new hn hx := .inl <| (h.mem (mem_nodes_iff.2 ⟨_, hn⟩)).resolve_left hx

namespace Renewed

theorem add (h : Renewed base s owner policy) (a : Added s s' id policy name type) :
    Renewed base s' owner policy := by
  have old {x : NodeId} {n : Node} (hn : s.nodes[x]? = some n) : x ≠ id := by
    rintro rfl
    exact nomatch a.fresh.symm.trans hn
  have ⟨pn, hpn, parent, name⟩ := h.named
  have hpn' : s'.nodes[policy]? = some { pn with children := pn.children ++ [id] } := by
    simp [a.nodes, old hpn, hpn]
  refine ⟨a.root.trans h.root, h.fresh, ⟨_, hpn', parent, name⟩, fun {x} hx => ?_,
    fun {x n} hn hx => ?_⟩
  · have ⟨b, hb⟩ := mem_nodes_iff.1 hx
    have kept := h.kept hx
    have : x ≠ policy := fun he => h.fresh (he ▸ hx)
    rw [hb, Option.map_some] at kept
    rw [a.nodes, if_neg (old kept), kept, hb]
    simp [this]
  · rw [a.nodes] at hn
    split at hn
    case isTrue  => exact .inr (Option.some_inj.1 hn ▸ rfl)
    case isFalse =>
      obtain ⟨m, hm, rfl⟩ := Option.map_eq_some_iff.1 hn
      exact h.new (n := m) hm hx

theorem edit {change : Node → Node} (h : Renewed base s owner policy) (e : Edited s s' id change)
    (hid : id ∉ base.nodes) : Renewed base s' owner policy := by
  have ⟨pn, hpn, parent, name⟩ := h.named
  have ⟨pn', hpn', pe⟩ := WellFormed.after_edit e hpn
  refine ⟨e.root.trans h.root, h.fresh, ⟨pn', hpn', pe.parent.trans parent, pe.name.trans name⟩,
    fun {x} hx => ?_, fun {x n'} hn' hx => ?_⟩
  · have : x ≠ id := fun he => hid (he ▸ hx)
    rw [← h.kept hx, e.nodes]
    simp [this]
  · have ⟨n, hn, ne⟩ := WellFormed.before_edit e hn'
    exact (h.new hn hx).imp_right ne.parent.trans

variable (h : Renewed base s owner policy) (before : base.WellFormed) (wf : s.WellFormed)

include h wf

theorem child : s.child? owner Policy.nodeName = some policy := by
  have ⟨pn, hpn, parent, name⟩ := h.named
  have ⟨on, hon, _⟩ := wf.listed hpn parent
  exact (wf.child_eq_some_iff hon).2 ⟨pn, hpn, parent, name⟩

include before

-- Nothing old is below what is new.
theorem isWithin_iff : s.isWithin policy x ↔ x ∈ s.nodes ∧ x ∉ base.nodes := by
  rw [wf.isWithin_iff_descends]
  refine and_congr_right fun hx => ?_
  constructor
  case mp =>
    intro way
    clear hx
    induction way
    case refl => exact h.fresh
    case tail q x _ hq hi =>
      intro hx
      have ⟨n, hn, hp⟩ := hq
      have ⟨b, hb⟩ := mem_nodes_iff.1 hx
      have kept := h.kept hx
      rw [hn, hb, Option.map_some, Option.some_inj] at kept
      have parent : b.parent = some q := by
        rw [← hp, kept]
        split <;> rfl
      exact hi (mem_nodes_iff.2 ((before.listed hb parent).imp fun _ hpn => hpn.1))
  case mpr =>
    intro hb
    have ⟨n, hn⟩ := mem_nodes_iff.1 hx
    rcases h.new hn hb with rfl | hp
    · exact .refl
    · exact .single ⟨n, hn, hp⟩

theorem inPolicy_iff : s.InPolicy owner x ↔ x ∈ s.nodes ∧ x ∉ base.nodes := by
  simp [InPolicy, h.child wf, h.isWithin_iff before wf]

-- What was added goes when the policy is removed, and nothing else does.
theorem eq_of_cleared (c : Cleared s s' owner []) : s' = base := by
  have nodes : s'.nodes = base.nodes := by
    refine Std.ExtTreeMap.ext_getElem? fun x => ?_
    by_cases hx : x ∈ base.nodes
    case pos =>
      have ⟨b, hb⟩ := mem_nodes_iff.1 hx
      have other : policy ∉ b.children := fun hc => by
        have ⟨_, hn, _⟩ := before.child hb hc
        exact h.fresh (mem_nodes_iff.2 ⟨_, hn⟩)
      have same : b.children.filter (fun c => policy ≠ c) = b.children :=
        List.filter_eq_self.2 fun c hc => by simpa using fun he : policy = c => other (he ▸ hc)
      rw [c.kept fun hp => ((h.inPolicy_iff before wf).1 hp).2 hx, h.kept hx, hb]
      by_cases hxo : x = owner
      case pos =>
        simp only [ne_eq, decide_not] at same
        simp [hxo, h.child wf, Node.gain, same]
      case neg => simp [hxo]
    case neg =>
      have gone : s'.nodes[x]? = none := by
        by_cases hp : s.InPolicy owner x
        case pos => exact c.gone hp
        case neg =>
          have : x ∉ s.nodes := fun hs => hp ((h.inPolicy_iff before wf).2 ⟨hs, hx⟩)
          rw [c.kept hp, Std.ExtTreeMap.getElem?_eq_none this]
          rfl
      rw [gone, Std.ExtTreeMap.getElem?_eq_none hx]
  have root := c.root.trans h.root
  cases s'
  cases base
  simp_all

end Renewed

end Store

end PolicyTree
