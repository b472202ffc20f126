import Mathlib.Data.List.Induction
import Mathlib.Logic.Relation
import Mathlib.Tactic.Common
import PolicyTree.Tree.NodeTypes

namespace PolicyTree.NodeTypes

variable {t : NodeTypes} {types taken : List String} {a b : String}

-- `b` is declared a supertype of `a`.
def Extends (t : NodeTypes) (a b : String) : Prop := b ∈ t.supers a

-- `b` is `a` or inherited by it, directly or not.
abbrev Inherits (t : NodeTypes) : String → String → Prop := Relation.ReflTransGen t.Extends

-- What is declared for a type, and by which of the declarations.

@[simp] theorem supers_empty : empty.supers a = [] := by
  simp [empty, supers]

theorem supers_declare {supers : List String} :
    (t.declare a supers).supers b = if a = b then supers else t.supers b := by
  simp only [declare, NodeTypes.supers, Std.ExtTreeMap.getElem?_insert,
    Std.LawfulEqCmp.compare_eq_iff_eq]
  split <;> rfl

def after (calls : List (String × List String)) : NodeTypes :=
  calls.foldl (fun t call => t.declare call.1 call.2) empty

-- `b` is among the supertypes that were declared for `a` last.
def Declared (calls : List (String × List String)) (a b : String) : Prop :=
  ∃ before supers later, calls = before ++ (a, supers) :: later ∧ a ∉ later.map (·.1) ∧ b ∈ supers

variable {calls : List (String × List String)}

theorem declared_concat_iff {call : String × List String} :
    Declared (calls ++ [call]) a b ↔ if call.1 = a then b ∈ call.2 else Declared calls a b := by
  constructor
  case mp =>
    rintro ⟨before, supers, later, he, last, hb⟩
    rcases List.eq_nil_or_concat later with rfl | ⟨later, call', rfl⟩
    case inl =>
      obtain ⟨rfl, rfl⟩ := List.append_singleton_inj.1 he
      simpa using hb
    case inr =>
      rw [List.concat_eq_append] at he last
      rw [← List.cons_append, ← List.append_assoc] at he
      obtain ⟨rfl, rfl⟩ := List.append_singleton_inj.1 he
      simp only [List.map_append, List.map_singleton, List.mem_append, List.mem_singleton,
        not_or] at last
      rw [if_neg (Ne.symm last.2)]
      exact ⟨before, supers, later, rfl, last.1, hb⟩
  case mpr =>
    split
    case isTrue hc =>
      subst hc
      exact fun hb => ⟨calls, call.2, [], rfl, by simp, hb⟩
    case isFalse hc =>
      rintro ⟨before, supers, later, rfl, last, hb⟩
      refine ⟨before, supers, later ++ [call], by simp, ?_, hb⟩
      rw [List.map_append, List.mem_append, not_or]
      exact ⟨last, by simpa using Ne.symm hc⟩

theorem extends_after_iff : (after calls).Extends a b ↔ Declared calls a b := by
  induction calls using List.reverseRecOn
  case nil => simp [Extends, after, Declared]
  case append_singleton calls call hi =>
    have : after (calls ++ [call]) = (after calls).declare call.1 call.2 := by simp [after]
    rw [declared_concat_iff, ← hi, Extends, this, supers_declare]
    split <;> rfl

-- What a walk through the declarations takes up.

-- The number of supertypes that may still have to be looked at.
def remaining (t : NodeTypes) (taken : List String) : Nat :=
  ((t.supertypes.toList.filter (·.1 ∉ taken)).flatMap (·.2)).length

theorem remaining_nil : t.remaining [] = t.links := by
  simp [remaining, links, List.filter_eq_self.2]

theorem remaining_concat (h : a ∉ taken) :
    t.remaining (taken ++ [a]) + (t.supers a).length ≤ t.remaining taken := by
  have fewer (l : List (String × List String)) :
      ((l.filter (·.1 ∉ taken ++ [a])).flatMap (·.2)).length ≤
        ((l.filter (·.1 ∉ taken)).flatMap (·.2)).length := by
    induction l
    case nil => simp
    case cons x l hi =>
      by_cases hx : x.1 ∈ taken <;> by_cases hxa : x.1 = a <;> grind
  have without (l : List (String × List String)) {v} (hv : (a, v) ∈ l) :
      ((l.filter (·.1 ∉ taken ++ [a])).flatMap (·.2)).length + v.length ≤
        ((l.filter (·.1 ∉ taken)).flatMap (·.2)).length := by
    induction l
    case nil => simp at hv
    case cons x l hi =>
      cases hv
      case head => simpa [h, Nat.add_comm] using fewer l
      case tail hv =>
        have := hi hv
        by_cases hx : x.1 ∈ taken <;> by_cases hxa : x.1 = a <;> grind
  unfold supers remaining
  cases hv : t.supertypes[a]?
  case none   => simpa using fewer _
  case some v => simpa using without _ (Std.ExtTreeMap.mem_toList_iff_getElem?_eq_some.2 hv)

namespace Walk

variable {w w' : Walk}

inductive Pass (t : NodeTypes) : Walk → Walk → Prop where
  | known {a pending taken} (h : a ∈ taken) : Pass t ⟨a :: pending, taken⟩ ⟨pending, taken⟩
  | fresh {a pending taken} (h : a ∉ taken) :
    Pass t ⟨a :: pending, taken⟩ ⟨(t.supers a).reverse ++ pending, taken ++ [a]⟩

theorem pass_of_next (h : w.next t = some w') : Pass t w w' := by
  unfold next at h
  split at h
  case h_1 => cases h
  case h_2 =>
    split at h <;> cases h
    case isTrue ha  => exact .known ha
    case isFalse ha => exact .fresh ha

theorem next_eq_none_iff : w.next t = none ↔ w.pending = [] := by
  unfold next
  split
  case h_1 => simp
  case h_2 => split <;> simp

theorem run_of_ended {n : Nat} (h : w.pending = []) : w.run t n = w := by
  cases n
  case zero => rfl
  case succ => rw [run, next_eq_none_iff.2 h]

theorem run_add {m n : Nat} : w.run t (m + n) = (w.run t m).run t n := by
  fun_induction run t m w
  case case1 => rw [Nat.zero_add]
  case case2 m w w' hn hi => simpa only [Nat.succ_add, run, hn] using hi
  case case3 m w hn =>
    have ended := next_eq_none_iff.1 hn
    rw [run_of_ended ended, run_of_ended ended]

-- More passes than this are not left.
def budget (t : NodeTypes) (w : Walk) : Nat := w.pending.length + t.remaining w.taken

theorem Pass.budget_lt (h : Pass t w w') : w'.budget t < w.budget t := by
  cases h
  case known => simp [budget]
  case fresh ha =>
    have := t.remaining_concat ha
    simp only [budget, List.length_append, List.length_reverse, List.length_cons]
    omega

theorem pending_run {passes : Nat} (h : w.budget t ≤ passes) : (w.run t passes).pending = [] := by
  fun_induction run t passes w
  case case1 w => exact List.length_eq_zero_iff.1 (by simp only [budget] at h; omega)
  case case2 passes w w' hn hi =>
    have := (pass_of_next hn).budget_lt
    exact hi (by omega)
  case case3 hn => exact next_eq_none_iff.1 hn

def Meets (w : Walk) (a : String) : Prop := a ∈ w.taken ∨ a ∈ w.pending

theorem meets_of_known {pending : List String} (h : a ∈ taken) :
    Meets ⟨pending, taken⟩ b ↔ Meets ⟨a :: pending, taken⟩ b := by
  simp only [Meets, List.mem_cons]
  constructor
  case mp => tauto
  case mpr =>
    rintro (hb | rfl | hb)
    · exact .inl hb
    · exact .inl h
    · exact .inr hb

theorem meets_of_fresh {pending : List String} :
    Meets ⟨(t.supers a).reverse ++ pending, taken ++ [a]⟩ b ↔
      Meets ⟨a :: pending, taken⟩ b ∨ t.Extends a b := by
  simp only [Meets, Extends, List.mem_cons, List.mem_append, List.mem_reverse]
  tauto

-- Where a walk may come to that began at the given types. What it has come upon is closed but for
-- the supertypes of what is pending, so it is closed once nothing is.
structure Explores (t : NodeTypes) (types : List String) (w : Walk) : Prop where
  given     : ∀ a ∈ types, w.Meets a
  closed    : ∀ a ∈ w.taken, ∀ b, t.Extends a b → w.Meets b
  inherited : ∀ b, w.Meets b → ∃ a ∈ types, t.Inherits a b
  nodup     : w.taken.Nodup

theorem explores_start : Explores t types (start types) where
  given     := fun a ha => .inr (List.mem_reverse.2 ha)
  closed    := by simp [start]
  inherited := fun b hb => ⟨b, by simpa [start, Meets] using hb, .refl⟩
  nodup     := List.nodup_nil

theorem Pass.explores (h : Pass t w w') (e : Explores t types w) : Explores t types w' := by
  cases h
  case known a pending taken ha => exact {
    given     := fun b hb => (meets_of_known ha).2 (e.given b hb)
    closed    := fun b hb c hbc => (meets_of_known ha).2 (e.closed b hb c hbc)
    inherited := fun b hb => e.inherited b ((meets_of_known ha).1 hb)
    nodup     := e.nodup }
  case fresh a pending taken ha =>
    refine ⟨fun b hb => meets_of_fresh.2 (.inl (e.given b hb)), ?closed, ?inherited, ?nodup⟩
    case closed =>
      intro b hb c hbc
      rcases List.mem_append.1 hb with hb | hb
      · exact meets_of_fresh.2 (.inl (e.closed b hb c hbc))
      · obtain rfl := List.mem_singleton.1 hb
        exact meets_of_fresh.2 (.inr hbc)
    case inherited =>
      intro b hb
      rcases meets_of_fresh.1 hb with hb | hab
      · exact e.inherited b hb
      · have ⟨c, hc, hca⟩ := e.inherited a (.inr List.mem_cons_self)
        exact ⟨c, hc, hca.tail hab⟩
    case nodup => exact List.nodup_append.2 ⟨e.nodup, by simp, by grind⟩

theorem Explores.run {passes : Nat} (h : Explores t types w) :
    Explores t types (w.run t passes) := by
  fun_induction Walk.run t passes w
  case case1 => exact h
  case case2 hn hi => exact hi ((pass_of_next hn).explores h)
  case case3 => exact h

end Walk

theorem run_start {passes : Nat} (h : types.length + t.links ≤ passes) :
    (Walk.start types).run t passes = ⟨[], t.expand types⟩ := by
  have budget : (Walk.start types).budget t = types.length + t.links := by
    simp [Walk.start, Walk.budget, remaining_nil]
  have ended : ((Walk.start types).run t (types.length + t.links)).pending = [] :=
    Walk.pending_run (Nat.le_of_eq budget)
  obtain ⟨k, rfl⟩ := Nat.exists_eq_add_of_le h
  rw [Walk.run_add, Walk.run_of_ended ended]
  exact congrArg (Walk.mk · _) ended

theorem explores_expand : Walk.Explores t types ⟨[], t.expand types⟩ :=
  run_start (Nat.le_refl _) ▸ Walk.explores_start.run

theorem mem_expand : b ∈ t.expand types ↔ ∃ a ∈ types, t.Inherits a b := by
  have e : Walk.Explores t types ⟨[], t.expand types⟩ := explores_expand
  have meets {b : String} : Walk.Meets ⟨[], t.expand types⟩ b ↔ b ∈ t.expand types := by
    simp [Walk.Meets]
  constructor
  case mp => exact fun hb => e.inherited b (meets.2 hb)
  case mpr =>
    rintro ⟨a, ha, hab⟩
    induction hab
    case refl => exact meets.1 (e.given a ha)
    case tail b c _ hbc hi => exact meets.1 (e.closed b hi c hbc)

theorem expand_mono {types' : List String} (h : ∀ a ∈ types, a ∈ types') (hb : b ∈ t.expand types) :
    b ∈ t.expand types' := by
  have ⟨a, ha, hab⟩ := mem_expand.1 hb
  exact mem_expand.2 ⟨a, h a ha, hab⟩

-- However the types were declared, the walk comes to its end, and with what it has taken up then
-- it is through.
theorem expand_ends_with_inherited (calls : List (String × List String)) (types : List String) :
    (∀ passes, types.length + (after calls).links ≤ passes →
      (Walk.start types).run (after calls) passes = ⟨[], (after calls).expand types⟩) ∧
    ((after calls).expand types).Nodup ∧
    ∀ b, b ∈ (after calls).expand types ↔
      ∃ a ∈ types, Relation.ReflTransGen (Declared calls) a b := by
  have declared : (after calls).Extends = Declared calls :=
    funext₂ fun _ _ => propext extends_after_iff
  refine ⟨fun _ => run_start, explores_expand.nodup, fun b => ?_⟩
  rw [mem_expand, Inherits, declared]

example : (after [("a", ["x"]), ("b", ["a", "c"]), ("a", ["b", "a"])]).expand ["b", "b"] =
    ["b", "c", "a"] := by
  decide

-- At the start both kinds of policy entries are entries, and nothing else is inherited.

example : initial = after [("rep:GrantACE", ["rep:ACE"]), ("rep:DenyACE", ["rep:ACE"])] := rfl

theorem initial_supers : initial.supers a =
    if a = "rep:GrantACE" ∨ a = "rep:DenyACE" then ["rep:ACE"] else [] := by
  simp only [initial, supers_declare, supers_empty, eq_comm (a := a)]
  split <;> simp_all

theorem mem_initial_expand : b ∈ initial.expand types ↔
    b ∈ types ∨ (b = "rep:ACE" ∧ ("rep:GrantACE" ∈ types ∨ "rep:DenyACE" ∈ types)) := by
  have inherits {a : String} : initial.Inherits a b ↔
      b = a ∨ (b = "rep:ACE" ∧ (a = "rep:GrantACE" ∨ a = "rep:DenyACE")) := by
    constructor
    case mp =>
      intro h
      induction h
      case refl => exact .inl rfl
      case tail b c _ hbc hi =>
        have hbc : c ∈ initial.supers b := hbc
        rw [initial_supers] at hbc
        split at hbc
        case isFalse => simp at hbc
        case isTrue hb =>
          obtain rfl := List.mem_singleton.1 hbc
          rcases hi with rfl | ⟨rfl, _⟩
          · exact .inr ⟨rfl, hb⟩
          · simp at hb
    case mpr =>
      rintro (rfl | ⟨rfl, h⟩)
      · exact .refl
      · exact .single (show _ ∈ initial.supers a by simp [initial_supers, h])
  rw [mem_expand]
  constructor
  case mp =>
    rintro ⟨a, ha, hab⟩
    rcases inherits.1 hab with rfl | ⟨rfl, rfl | rfl⟩ <;> simp [ha]
  case mpr =>
    rintro (hb | ⟨rfl, h | h⟩)
    · exact ⟨b, hb, .refl⟩
    · exact ⟨_, h, inherits.2 (by simp)⟩
    · exact ⟨_, h, inherits.2 (by simp)⟩

end PolicyTree.NodeTypes
