import Mathlib.Tactic.Common
import PolicyTree.Proofs.Policy.Naming
import PolicyTree.Proofs.Policy.Revising
import PolicyTree.Proofs.Tree.Telling

namespace PolicyTree

namespace Store

open Policy

variable {base next s other : Store} {t : NodeTypes} {kind : EventKind} {e : Event} {path : String}
  {m : Modifications} {ns : List String} {p x : NodeId} {n : Node} {types : List String}

theorem exists_of_mem_lacking (h : s.WellFormed) (he : e ∈ lacking kind s other t) :
    ∃ ns p x n, s.Stands ns p ∧ s.nodes[x]? = some n ∧ n.parent = some p ∧ x ∉ other.nodes ∧
      e = ⟨kind, Path.ofNames (ns ++ [n.name]), x, s.effectiveTypes t p⟩ := by
  obtain ⟨⟨rfl, path, p, ⟨n, hn, hp⟩, types⟩, lacks⟩ := tellsNode_of_mem he
  obtain ⟨pn, hpn, _⟩ := h.listed hn hp
  obtain ⟨ns, hs⟩ := h.stands hpn
  rw [h.pathOf_eq (.child hs hp hn), Option.some_inj] at path
  exact ⟨ns, p, e.node, n, hs, hn, hp, lacks, by rw [path, ← types]⟩

-- What an event has been about that was taken for a change of the policy of a path.
inductive Marked (base next : Store) : String → Modifications → Prop
  | policyAdded {ns : List String} {p x : NodeId} {n : Node} (above : next.Stands ns p)
    (node : next.nodes[x]? = some n) (parent : n.parent = some p) (fresh : x ∉ base.nodes)
    (list : next.IsList x) : Marked base next (Path.ofNames ns) .added
  | entryAdded {ns : List String} {a : String} {p x : NodeId} {n : Node}
    (above : next.Stands (ns ++ [a]) p) (node : next.nodes[x]? = some n)
    (parent : n.parent = some p) (fresh : x ∉ base.nodes) (entry : next.IsEntry x) :
    Marked base next (Path.ofNames ns) .modified
  | policyRemoved {ns : List String} {p x : NodeId} {b : Node} (above : base.Stands ns p)
    (node : base.nodes[x]? = some b) (parent : b.parent = some p) (gone : x ∉ next.nodes)
    (name : b.name = nodeName) : Marked base next (Path.ofNames ns) .removed
  | entryRemoved {ns : List String} {a : String} {p q x : NodeId} {b : Node}
    (above : base.Stands (ns ++ [a]) p) (node : base.nodes[x]? = some b)
    (parent : b.parent = some p) (gone : x ∉ next.nodes) (name : b.name ≠ nodeName)
    (now : next.Stands (ns ++ [a]) q) (list : next.IsList q) :
    Marked base next (Path.ofNames ns) .modified
  | entryChanged {ns : List String} {a name : String} {x : NodeId}
    (stands : next.Stands (ns ++ [a, name]) x) (entry : next.IsEntry x) {property : String}
    (alters : base.property? x property ≠ next.property? x property) :
    Marked base next (Path.ofNames ns) .modified

theorem Alters.ne {v w : Option Value} (h : Alters v w kind) : v ≠ w := by
  cases h
  case added      => simp
  case changed hn => simpa using hn
  case removed    => simp

theorem Alters.of_property {v w : Option Value} (h : Alters v w kind) :
    PolicyChange.ofEvent (next.view t) ⟨kind, path, x, types⟩ =
      .ok (PolicyChange.ofProperty ⟨kind, path, x, types⟩) := by
  cases h <;> rfl

theorem marked_of_removal (h : base.WellFormed) (h' : next.WellFormed)
    (he : e ∈ lacking .nodeRemoved base next t)
    (ho : PolicyChange.ofEvent (next.view .initial) e = .ok (some (path, m))) :
    Marked base next path m := by
  obtain ⟨ns, p, x, b, hs, hb, hp, gone, rfl⟩ := exists_of_mem_lacking h he
  have hv := h.isSegment_of_stands (.child hs hp hb)
  rcases PolicyChange.of_ofRemoval h' hv rfl ho with
    ⟨hname, rfl, rfl⟩ | ⟨hname, ha, rfl, q, hq, hl⟩
  · exact .policyRemoved hs hb hp gone hname
  · obtain ⟨above, below, rfl, hk, rfl⟩ := (Path.ancestor_concat_eq_some_iff hv).1 ha
    obtain ⟨a, rfl⟩ := List.length_eq_one_iff.1 hk
    exact .entryRemoved hs hb hp gone hname hq hl

theorem marked_of_addition (h : next.WellFormed) (he : e ∈ lacking .nodeAdded next base .initial)
    (ho : PolicyChange.ofEvent (next.view .initial) e = .ok (some (path, m))) :
    Marked base next path m := by
  obtain ⟨ns, p, x, n, hs, hn, hp, fresh, rfl⟩ := exists_of_mem_lacking h he
  have hv := h.isSegment_of_stands (.child hs hp hn)
  rw [PolicyChange.ofEvent, PolicyChange.ofAddition_eq h hn, Except.ok.injEq] at ho
  split at ho
  case isTrue hl =>
    rw [Path.parent_ofNames hv] at ho
    obtain ⟨rfl, rfl⟩ : Path.ofNames ns = path ∧ Modifications.added = m := by simpa using ho
    exact .policyAdded hs hn hp fresh hl
  case isFalse =>
    split at ho
    case isFalse      => cases ho
    case isTrue entry =>
      obtain ⟨_, ha, heq⟩ := Option.map_eq_some_iff.1 ho
      obtain ⟨rfl, rfl⟩ := Prod.mk.inj heq
      obtain ⟨above, below, rfl, hk, rfl⟩ := (Path.ancestor_concat_eq_some_iff hv).1 ha
      obtain ⟨a, rfl⟩ := List.length_eq_one_iff.1 hk
      exact .entryAdded hs hn hp fresh entry

theorem marked_of_property (h : base.WellFormed) (h' : next.WellFormed)
    (he : TellsProperty base next .initial e)
    (ho : PolicyChange.ofEvent (next.view .initial) e = .ok (some (path, m))) :
    Marked base next path m := by
  cases he
  case property _ _ property _ place alters =>
    obtain ⟨ns, hs, rfl⟩ := h'.stands_of_pathOf place
    have hns := h'.isSegment_of_stands hs
    have hv : ∀ n ∈ ns ++ [property], Path.IsSegment n := by
      simpa [or_imp, forall_and] using ⟨hns, isSegment_of_alters h h' alters⟩
    rw [alters.of_property, PolicyChange.ofProperty, Except.ok.injEq, Path.join_ofNames hns] at ho
    split at ho
    case isFalse      => cases ho
    case isTrue entry =>
      obtain ⟨_, ha, heq⟩ := Option.map_eq_some_iff.1 ho
      obtain ⟨rfl, rfl⟩ := Prod.mk.inj heq
      obtain ⟨above, below, rfl, hk, rfl⟩ := (Path.ancestor_concat_eq_some_iff hv).1 ha
      obtain ⟨a, name, rfl⟩ := List.length_eq_two.1 hk
      exact .entryChanged hs (List.contains_iff_mem.1 entry) alters.ne

theorem Marks.marked (h : base.WellFormed) (h' : next.WellFormed) (hm : Marks base next path m) :
    Marked base next path m := by
  obtain ⟨e, he, ho⟩ := hm
  have he := (List.mem_filter.1 he).1
  simp only [changes, removals_eq, additions_eq, List.mem_append, mem_sortOn, or_assoc] at he
  rcases he with removal | addition | property
  · exact marked_of_removal h h' removal ho
  · exact marked_of_addition h' addition ho
  · exact marked_of_property h h' ((mem_propertyEvents_iff h h').1 property) ho

theorem Marked.eq_single (h : Marked base next path m) :
    m = .single 0 ∨ m = .single 1 ∨ m = .single 2 := by
  cases h <;> simp [Modifications.added, Modifications.modified, Modifications.removed]

theorem Names.exists_marks (h : Names base next path) : ∃ m, Marks base next path m :=
  have ⟨e, he, m, ho⟩ := PolicyChange.mem_ofEvents.1 h
  ⟨m, e, he, ho⟩

-- There is a flag if there is an event of the kind, as each event has one kind.
theorem single_subset_flags_iff {i : Nat} (hi : i < 3) (h : base.WellFormed)
    (h' : next.WellFormed) : FlagSet.single i ⊆ (PolicyChange.ofEvents (next.view .initial)
      ((base.changes next .initial).filter PolicyChange.filter.accepts)).flags path ↔
      Marks base next path (.single i) := by
  have one {a : Modifications} : FlagSet.single i ⊆ a ↔ i ∈ a := by
    simp [FlagSet.subset_iff, hi]
  rw [one, PolicyChange.mem_flags_ofEvents]
  constructor
  case mp =>
    rintro ⟨e, he, m, ho, hm⟩
    have marks : Marks base next path m := ⟨e, he, ho⟩
    rcases (marks.marked h h').eq_single with rfl | rfl | rfl <;>
      obtain ⟨rfl, -⟩ := FlagSet.mem_single.1 hm <;> exact marks
  case mpr =>
    rintro ⟨e, he, ho⟩
    exact ⟨e, he, _, ho, FlagSet.mem_single.2 ⟨rfl, hi⟩⟩

-- Policies and their entries, where trees are tidy.

def PolicyAt (s : Store) (ns : List String) (x : NodeId) : Prop :=
  s.IsList x ∧ s.Stands (ns ++ [nodeName]) x

def HasEntry (s : Store) (x : NodeId) : Prop := ∃ e, s.IsParent x e ∧ s.IsEntry e

namespace InPlace

variable (h : s.InPlace)

include h

theorem policyAt {a : String} (hl : s.IsList x) (hs : s.Stands (ns ++ [a]) x) :
    s.PolicyAt ns x := by
  obtain ⟨p, n, _, _, hn, rfl⟩ := stands_concat_iff.1 hs
  exact ⟨hl, ((h.placed hn).list hl).1 ▸ hs⟩

theorem of_policyAt (hx : s.PolicyAt ns x) : ∃ p n, s.Stands ns p ∧ s.nodes[x]? = some n ∧
    n.parent = some p ∧ n.name = nodeName ∧ s.IsControlled p := by
  obtain ⟨hl, hs⟩ := hx
  obtain ⟨p, n, above, hp, hn, hname⟩ := stands_concat_iff.1 hs
  obtain ⟨_, o, ho, hc⟩ := (h.placed hn).list hl
  obtain rfl := Option.some_inj.1 (hp.symm.trans ho)
  exact ⟨p, n, above, hn, hp, hname, hc⟩

theorem list_of_entry (he : s.IsEntry x) (hp : s.IsParent p x) : s.IsList p := by
  obtain ⟨n, hn, hp⟩ := hp
  obtain ⟨_, q, hq, hl⟩ := (h.placed hn).entry he
  exact Option.some_inj.1 (hp.symm.trans hq) ▸ hl

end InPlace

-- From one tree to the next policies have come and gone as wholes.
structure Replaced (base next : Store) : Prop where
  before  : base.WellFormed
  after   : next.WellFormed
  follows : Follows base next
  tidy    : base.Tidy
  revised : Revised base next

namespace Replaced

variable (h : Replaced base next)

include h

-- Of an entry that was there before nothing is another.
theorem property_eq {name : String} {b : Node} (hb : base.nodes[x]? = some b)
    (hn : next.nodes[x]? = some n) (he : next.IsEntry x) :
    base.property? x name = next.property? x name := by
  have ⟨mixins, properties⟩ := h.revised.content hb hn he
  simp [property?, hb, hn, Node.property?, mixins, properties]

theorem marks_added_iff : Marks base next path .added ↔
    ∃ ns x, Path.ofNames ns = path ∧ next.PolicyAt ns x ∧ x ∉ base.nodes := by
  have placed := h.revised.tidy.inPlace
  constructor
  case mp =>
    intro hm
    have hm := hm.marked h.before h.after
    generalize hkind : Modifications.added = m at hm
    cases hm
    case policyAdded ns p x n above node parent fresh list =>
      exact ⟨ns, x, rfl, placed.policyAt list (.child above parent node), fresh⟩
    all_goals exact absurd hkind (by decide)
  case mpr =>
    rintro ⟨ns, x, rfl, hx, fresh⟩
    obtain ⟨p, n, hs, hn, hp, _, hc⟩ := placed.of_policyAt hx
    exact marks_of_added_policy h.after hs hn hp ⟨_, by simp, hc⟩ hx.1 fresh

theorem marks_removed_iff : Marks base next path .removed ↔
    ∃ ns x, Path.ofNames ns = path ∧ base.PolicyAt ns x ∧ x ∉ next.nodes := by
  constructor
  case mp =>
    intro hm
    have hm := hm.marked h.before h.after
    generalize hkind : Modifications.removed = m at hm
    cases hm
    case policyRemoved ns p x b above node parent gone name =>
      have list := h.tidy.named node parent name
      exact ⟨ns, x, rfl, h.tidy.inPlace.policyAt list (.child above parent node), gone⟩
    all_goals exact absurd hkind (by decide)
  case mpr =>
    rintro ⟨ns, x, rfl, hx, gone⟩
    obtain ⟨p, b, hs, hb, hp, hname, hc⟩ := h.tidy.inPlace.of_policyAt hx
    exact marks_of_removed_policy h.before hs hb hp hname ⟨_, by simp, hc⟩ gone

theorem marks_modified_iff : Marks base next path .modified ↔
    ∃ ns x, Path.ofNames ns = path ∧ next.PolicyAt ns x ∧ x ∉ base.nodes ∧
      (next.HasEntry x ∨ ∃ old, base.PolicyAt ns old ∧ base.HasEntry old) := by
  have placed := h.revised.tidy.inPlace
  constructor
  case mp =>
    intro hm
    have hm := hm.marked h.before h.after
    generalize hkind : Modifications.modified = m at hm
    cases hm
    case entryAdded ns a p x n above node parent fresh entry =>
      have hp : next.IsParent p x := ⟨n, node, parent⟩
      have list := placed.list_of_entry entry hp
      refine ⟨ns, p, rfl, placed.policyAt list above, fun old => ?_, .inl ⟨x, hp, entry⟩⟩
      exact fresh (h.revised.ungrown hp list old)
    case entryChanged ns a name x stands entry property alters =>
      rw [List.append_cons] at stands
      obtain ⟨p, n, above, hp, hn, _⟩ := stands_concat_iff.1 stands
      have hp : next.IsParent p x := ⟨n, hn, hp⟩
      have list := placed.list_of_entry entry hp
      refine ⟨ns, p, rfl, placed.policyAt list above, fun old => ?_, .inl ⟨x, hp, entry⟩⟩
      have ⟨b, hb⟩ := mem_nodes_iff.1 (h.revised.ungrown hp list old)
      exact alters (h.property_eq hb hn entry)
    case entryRemoved ns a p q x b above node parent gone name now list =>
      have hq := placed.policyAt list now
      obtain rfl : a = nodeName := by
        have := h.after.stands_unique now hq.2
        simpa using this
      obtain ⟨o, pb, _, ho, hpb, hname⟩ := stands_concat_iff.1 above
      have hl := h.tidy.named hpb ho hname
      have he : base.IsEntry x := by
        have belongs := h.tidy.inPlace.placed node
        exact (belongs.below p parent (.inl hl)).resolve_left fun hx => name (belongs.list hx).1
      have hp : base.IsParent p x := ⟨b, node, parent⟩
      refine ⟨ns, q, rfl, hq, fun old => ?_, .inr ⟨p, ⟨hl, above⟩, x, hp, he⟩⟩
      -- The policy would be the one that there was, and would have kept its entries.
      have ⟨qb, hqb⟩ := mem_nodes_iff.1 old
      obtain rfl := h.before.stands_inj (h.follows.stands_before h.before h.after now hqb) above
      exact gone (h.revised.unshorn hp he (mem_nodes_iff.2 (h.after.mem_of_stands now)))
    all_goals exact absurd hkind (by decide)
  case mpr =>
    rintro ⟨ns, x, rfl, hx, fresh, ⟨e, ⟨n, hn, hp⟩, he⟩ | ⟨old, hold, e, ⟨b, hb, hp⟩, he⟩⟩
    · have hnew : e ∉ base.nodes := fun hb => by
        have ⟨b, hb, hp⟩ := h.follows.isParent ⟨n, hn, hp⟩ hb
        exact fresh (mem_nodes_iff.2 ((h.before.listed hb hp).imp fun _ hpn => hpn.1))
      exact marks_of_added_entry h.after hx.2 hn hp ⟨_, by simp, hx.1⟩
        (fun hl => placed.list_not_entry hl he) he hnew
    · have hgone : e ∉ next.nodes := fun hn => by
        have ⟨n, hn⟩ := mem_nodes_iff.1 hn
        have hp' := (h.follows.node hb hn).2.1.trans hp
        have ⟨on, hon, _⟩ := h.after.listed hn hp'
        have hs := h.follows.stands h.after hold.2 hon
        obtain rfl := h.after.stands_inj hs hx.2
        exact fresh (mem_nodes_iff.2 ((h.before.listed hb hp).imp fun _ hpn => hpn.1))
      exact marks_of_removed_entry h.before h.after hold.2 hx.2 hb hp
        ((h.tidy.inPlace.placed hb).entry he).1 ⟨_, by simp, hold.1⟩ hx.1 hgone

end Replaced

end Store

end PolicyTree
