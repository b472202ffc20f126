import Mathlib.Tactic.Common
import PolicyTree.Proofs.Tree.Location
import PolicyTree.Tree.Change

namespace PolicyTree.Store

variable {base next : Store} {t : NodeTypes} {id p : NodeId} {n b : Node} {ns : List String}

def lacking (kind : EventKind) (s other : Store) (t : NodeTypes) : List Event :=
  s.nodes.toList.filterMap fun (id, node) =>
    if id ∈ other.nodes then none
    else do
      let path ← s.pathOf? id
      let parent ← node.parent
      return ⟨kind, path, id, s.effectiveTypes t parent⟩

theorem removals_eq : removals base next t = lacking .nodeRemoved base next t := rfl

theorem additions_eq : additions base next t = lacking .nodeAdded next base t := rfl

theorem mem_lacking {s other : Store} {kind : EventKind} (h : s.WellFormed) (hs : s.Stands ns id)
    (hn : s.nodes[id]? = some n) (hp : n.parent = some p) (lacks : id ∉ other.nodes) :
    ⟨kind, Path.ofNames ns, id, s.effectiveTypes t p⟩ ∈ lacking kind s other t := by
  refine List.mem_filterMap.2 ⟨(id, n), Std.ExtTreeMap.mem_toList_iff_getElem?_eq_some.2 hn, ?_⟩
  simp [lacks, h.pathOf_eq hs, hp]

theorem removed_mem_changes (h : base.WellFormed) (hs : base.Stands ns id)
    (hn : base.nodes[id]? = some n) (hp : n.parent = some p) (gone : id ∉ next.nodes) :
    ⟨.nodeRemoved, Path.ofNames ns, id, base.effectiveTypes t p⟩ ∈ changes base next t := by
  simp [changes, removals_eq, mem_lacking h hs hn hp gone]

theorem added_mem_changes (h : next.WellFormed) (hs : next.Stands ns id)
    (hn : next.nodes[id]? = some n) (hp : n.parent = some p) (fresh : id ∉ base.nodes) :
    ⟨.nodeAdded, Path.ofNames ns, id, next.effectiveTypes t p⟩ ∈ changes base next t := by
  simp [changes, additions_eq, mem_lacking h hs hn hp fresh]

theorem property_mem_changes {kind : EventKind} {name : String} (h : next.WellFormed)
    (hs : next.Stands ns id) (hn : next.nodes[id]? = some n)
    (hc : (kind, name) ∈
      changedProperties (base.nodes[id]?.getD (.new n.name n.parent n.primaryType)) n) :
    ⟨kind, Path.join (Path.ofNames ns) name, id, next.effectiveTypes t id⟩ ∈
      changes base next t := by
  have : ⟨kind, Path.join (Path.ofNames ns) name, id, next.effectiveTypes t id⟩ ∈
      propertyEvents base next t := by
    refine List.mem_flatMap.2 ⟨(id, n), ?_, ?_⟩
    · exact Std.ExtTreeMap.mem_toList_iff_getElem?_eq_some.2 hn
    · simp only [h.pathOf_eq hs]
      exact List.mem_map.2 ⟨(kind, name), hc, rfl⟩
  simp [changes, this]

-- What is different in a node is among its changed properties.

theorem exists_changed_mixins (h : b.mixins ≠ n.mixins) :
    ∃ kind, (kind, mixinProperty) ∈ changedProperties b n ∧
      kind ∈ [.propertyAdded, .propertyChanged, .propertyRemoved] := by
  have ⟨kind, hk, hm⟩ : ∃ kind, mixinChange? b.mixins n.mixins = some kind ∧
      kind ∈ [.propertyAdded, .propertyChanged, .propertyRemoved] := by
    unfold mixinChange?
    rw [if_neg h]
    split
    · exact ⟨_, rfl, by simp⟩
    · split
      · exact ⟨_, rfl, by simp⟩
      · exact ⟨_, rfl, by simp⟩
  exact ⟨kind, by simp [changedProperties, hk], hm⟩

theorem exists_changed_property (h : b.properties ≠ n.properties) :
    ∃ kind name, (kind, name) ∈ changedProperties b n ∧
      kind ∈ [.propertyAdded, .propertyChanged, .propertyRemoved] ∧
      (name ∈ b.properties ∨ name ∈ n.properties) := by
  have ⟨name, hd⟩ : ∃ name : String, b.properties[name]? ≠ n.properties[name]? := by
    by_contra hc
    push Not at hc
    exact h (Std.ExtTreeMap.ext_getElem? hc)
  have ⟨kind, hk, hm⟩ : ∃ kind,
      propertyChange? b.properties[name]? n.properties[name]? = some kind ∧
      kind ∈ [.propertyAdded, .propertyChanged, .propertyRemoved] := by
    cases hb : b.properties[name]? <;> cases hn : n.properties[name]? <;>
      simp_all [propertyChange?]
  have there : name ∈ b.properties ∨ name ∈ n.properties := by
    by_contra hc
    simp only [not_or] at hc
    simp [Std.ExtTreeMap.getElem?_eq_none hc.1, Std.ExtTreeMap.getElem?_eq_none hc.2] at hd
  refine ⟨kind, name, ?_, hm, there⟩
  refine List.mem_append_right _ (List.mem_filterMap.2 ⟨name, ?_, by simp [hk]⟩)
  by_cases hn : name ∈ n.properties
  case pos => simp [hn]
  case neg => simp [hn, there.resolve_right hn]

theorem changedProperties_self : changedProperties n n = [] := by
  have each (v : Option Value) : propertyChange? v v = none := by
    cases v <;> simp [propertyChange?]
  simp [changedProperties, mixinChange?, each]

theorem changes_self : base.changes base t = [] := by
  have whole {kind : EventKind} : lacking kind base base t = [] := by
    refine List.filterMap_eq_nil_iff.2 fun (id, n) hn => ?_
    have here : base.nodes[id]? = some n := Std.ExtTreeMap.mem_toList_iff_getElem?_eq_some.1 hn
    exact if_pos (Std.ExtTreeMap.mem_iff_isSome_getElem?.2 (by simp [here]))
  have events : propertyEvents base base t = [] := by
    refine List.flatMap_eq_nil_iff.2 fun (id, n) hn => ?_
    have here : base.nodes[id]? = some n := Std.ExtTreeMap.mem_toList_iff_getElem?_eq_some.1 hn
    dsimp only
    cases base.pathOf? id
    case none      => rfl
    case some path => simp [here, changedProperties_self]
  rw [changes, removals_eq, additions_eq, whole, whole, events]
  rfl

end PolicyTree.Store
