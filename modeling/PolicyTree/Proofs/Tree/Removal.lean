import Mathlib.Data.List.Dedup
import Mathlib.Logic.Relation
import Mathlib.Tactic.Common
import PolicyTree.Tree.Store

namespace PolicyTree.Store

variable {nodes left : Std.ExtTreeMap NodeId Node} {due : List NodeId} {id x : NodeId} {n : Node}

def LeadsTo (nodes : Std.ExtTreeMap NodeId Node) (p c : NodeId) : Prop :=
  ∃ n, nodes[p]? = some n ∧ c ∈ n.children

-- The number of children that may still become due.
def childCount (nodes : Std.ExtTreeMap NodeId Node) : Nat :=
  (nodes.toList.flatMap (·.2.children)).length

theorem nodup_toList : nodes.toList.Nodup :=
  Std.ExtTreeMap.distinct_keys_toList.imp fun hne => by
    rintro rfl
    exact hne Std.ReflCmp.compare_self

theorem getElem?_erase_eq_some_iff :
    (nodes.erase id)[x]? = some n ↔ x ≠ id ∧ nodes[x]? = some n := by
  simp only [Std.ExtTreeMap.getElem?_erase, Std.LawfulEqCmp.compare_eq_iff_eq]
  split <;> simp_all [eq_comm]

theorem childCount_erase (hn : nodes[id]? = some n) :
    childCount nodes = n.children.length + childCount (nodes.erase id) := by
  have perm : nodes.toList.Perm ((id, n) :: (nodes.erase id).toList) := by
    refine (List.perm_ext_iff_of_nodup nodup_toList (List.nodup_cons.2 ⟨?_, nodup_toList⟩)).2 ?_
    · simp [Std.ExtTreeMap.mem_toList_iff_getElem?_eq_some]
    · rintro ⟨x, m⟩
      simp only [List.mem_cons, Std.ExtTreeMap.mem_toList_iff_getElem?_eq_some,
        getElem?_erase_eq_some_iff, Prod.mk.injEq]
      by_cases hx : x = id
      case pos => subst hx; simp [hn, eq_comm]
      case neg => simp [hx]
  rw [childCount, (perm.flatMap_right _).length_eq]
  simp [childCount]

-- What is left of the nodes when those that are due, and all that is below them, are gone.
structure Leaves (nodes : Std.ExtTreeMap NodeId Node) (due : List NodeId)
    (left : Std.ExtTreeMap NodeId Node) : Prop where
  kept    : ∀ {x : NodeId} {n : Node}, left[x]? = some n → nodes[x]? = some n
  gone    : ∀ x ∈ due, x ∉ left
  closed  : ∀ {p c : NodeId}, LeadsTo nodes p c → p ∉ left → c ∉ left
  reached : ∀ x ∈ nodes, x ∉ left → ∃ d ∈ due, Relation.ReflTransGen (LeadsTo nodes) d x

theorem leaves_takeOut (steps : Nat) (h : due.length + childCount nodes ≤ steps) :
    Leaves nodes due (takeOut steps due nodes) := by
  have finished {nodes : Std.ExtTreeMap NodeId Node} : Leaves nodes [] nodes := {
    kept    := id
    gone    := by simp
    closed  := by
      rintro p c ⟨n, hn, _⟩ hp
      exact absurd (Std.ExtTreeMap.mem_iff_isSome_getElem?.2 (by simp [hn])) hp
    reached := fun x hx hl => absurd hx hl }
  fun_induction takeOut steps due nodes
  case case1 due nodes =>
    cases due
    case nil  => exact finished
    case cons => simp at h
  case case2 => exact finished
  case case3 steps id due nodes n hn hi =>
    have count := childCount_erase hn
    have w := hi (by simp at h ⊢; omega)
    have out : id ∉ takeOut steps (n.children.reverse ++ due) (nodes.erase id) := fun hc => by
      obtain ⟨m, hm⟩ := Option.isSome_iff_exists.1 (Std.ExtTreeMap.mem_iff_isSome_getElem?.1 hc)
      exact (getElem?_erase_eq_some_iff.1 (w.kept hm)).1 rfl
    refine ⟨fun hx => (getElem?_erase_eq_some_iff.1 (w.kept hx)).2, ?_, ?_, fun x hx hl => ?_⟩
    · intro x hx
      rcases List.mem_cons.1 hx with rfl | hx
      · exact out
      · exact w.gone x (by simp [hx])
    · rintro p c ⟨m, hm, hc⟩ hp
      by_cases hpid : p = id
      case pos =>
        subst hpid
        obtain rfl := Option.some_inj.1 (hn.symm.trans hm)
        exact w.gone c (by simp [hc])
      case neg => exact w.closed ⟨m, getElem?_erase_eq_some_iff.2 ⟨hpid, hm⟩, hc⟩ hp
    · by_cases hxid : x = id
      case pos => exact ⟨id, by simp, hxid ▸ .refl⟩
      case neg =>
        obtain ⟨d, hd, way⟩ := w.reached x (by simp [hx, Ne.symm hxid]) hl
        have fewer : ∀ p c, LeadsTo (nodes.erase id) p c → LeadsTo nodes p c :=
          fun p c ⟨m, hm, hc⟩ => ⟨m, (getElem?_erase_eq_some_iff.1 hm).2, hc⟩
        have way := Relation.ReflTransGen.mono fewer d x way
        rcases List.mem_append.1 hd with hd | hd
        · exact ⟨id, by simp, .head ⟨n, hn, List.mem_reverse.1 hd⟩ way⟩
        · exact ⟨d, by simp [hd], way⟩
  case case4 steps id due nodes hn hi =>
    have w := hi (by simp at h; omega)
    refine ⟨w.kept, fun x hx => ?_, w.closed, fun x hx hl => ?_⟩
    · rcases List.mem_cons.1 hx with rfl | hx
      · intro hc
        obtain ⟨m, hm⟩ := Option.isSome_iff_exists.1 (Std.ExtTreeMap.mem_iff_isSome_getElem?.1 hc)
        simp [w.kept hm] at hn
      · exact w.gone x hx
    · obtain ⟨d, hd, way⟩ := w.reached x hx hl
      exact ⟨d, by simp [hd], way⟩

variable {s : Store} {top : NodeId}

theorem leaves_without : Leaves s.nodes [top] (s.without top) := by
  apply leaves_takeOut
  simp [childCount]

def isWithin (s : Store) (top id : NodeId) : Bool := id ∈ s.nodes && id ∉ s.without top

theorem isWithin_iff_leads :
    s.isWithin top id ↔ id ∈ s.nodes ∧ Relation.ReflTransGen (LeadsTo s.nodes) top id := by
  have w : Leaves s.nodes [top] (s.without top) := leaves_without
  have out (way : Relation.ReflTransGen (LeadsTo s.nodes) top id) : id ∉ s.without top := by
    induction way
    case refl         => exact w.gone top (by simp)
    case tail hl gone => exact w.closed hl gone
  simp only [isWithin, Bool.and_eq_true, decide_eq_true_eq]
  refine and_congr_right fun hid => ⟨fun hl => ?_, out⟩
  obtain ⟨d, hd, way⟩ := w.reached id hid hl
  exact List.mem_singleton.1 hd ▸ way

theorem getElem?_without :
    (s.without top)[id]? = if s.isWithin top id then none else s.nodes[id]? := by
  have w : Leaves s.nodes [top] (s.without top) := leaves_without
  cases hl : (s.without top)[id]?
  case some n =>
    have : id ∈ s.without top := Std.ExtTreeMap.mem_iff_isSome_getElem?.2 (by simp [hl])
    simp [isWithin, this, w.kept hl]
  case none =>
    have : id ∉ s.without top := by simpa using hl
    by_cases hid : id ∈ s.nodes <;> simp [isWithin, this, hid]

end PolicyTree.Store
