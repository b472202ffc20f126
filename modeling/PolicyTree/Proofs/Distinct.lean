import Mathlib.Data.List.Induction
import Mathlib.Data.List.Nodup
import Mathlib.Tactic.Common

namespace PolicyTree

variable {α : Type} {a : α} {l : List α} {n : Nat}

section

variable [BEq α] [LawfulBEq α]

theorem eraseDups_concat :
    (l ++ [a]).eraseDups = if l.contains a then l.eraseDups else l.eraseDups ++ [a] := by
  rw [List.eraseDups_append, List.cons_removeAll]
  cases hl : l.contains a <;> simp [List.removeAll, List.eraseDups_cons]

theorem eraseDups_filter {p : α → Bool} : (l.filter p).eraseDups = l.eraseDups.filter p := by
  induction l using List.reverseRecOn
  case nil => rfl
  case append_singleton l a hi =>
    rw [List.filter_append, eraseDups_concat]
    cases hp : p a
    case false =>
      rw [List.filter_cons_of_neg (by simp [hp]), List.filter_nil, List.append_nil, hi]
      split <;> simp [hp]
    case true =>
      rw [List.filter_cons_of_pos hp, List.filter_nil, eraseDups_concat, hi]
      by_cases hl : a ∈ l <;> simp [hl, hp]

theorem nodup_eraseDups : l.eraseDups.Nodup := by
  induction l using List.reverseRecOn
  case nil => exact .nil
  case append_singleton l a hi =>
    rw [eraseDups_concat]
    split
    case isTrue => exact hi
    case isFalse new =>
      rw [List.contains_iff_mem, ← List.mem_eraseDups] at new
      exact List.nodup_append.2 ⟨hi, List.nodup_singleton a, fun _ hb _ hc heq =>
        new (List.mem_singleton.1 hc ▸ heq ▸ hb)⟩

end

variable [DecidableEq α]

-- An element is among the first as long as there are not too many others before it.
theorem mem_take_eraseDups_iff : a ∈ l.eraseDups.take n ↔
    a ∈ l ∧ (l.takeWhile (· ≠ a)).eraseDups.length < n := by
  by_cases ha : a ∈ l
  case neg =>
    exact iff_of_false (fun h => ha (List.mem_eraseDups.1 (List.mem_of_mem_take h))) fun h => ha h.1
  case pos =>
    obtain ⟨before, rest, rfl, first⟩ := List.eq_append_cons_of_mem ha
    have others : (before ++ a :: rest).takeWhile (· ≠ a) = before := by
      rw [List.takeWhile_append_of_pos fun b hb => by simpa using fun h : b = a => first (h ▸ hb)]
      simp
    have index : (before ++ a :: rest).eraseDups.idxOf a = before.eraseDups.length := by
      rw [List.eraseDups_append, List.cons_removeAll]
      have : a ∉ before.eraseDups := List.mem_eraseDups.not.2 first
      simp [first, List.eraseDups_cons, List.idxOf_append_of_notMem this]
    rw [List.mem_take_iff_idxOf_lt (List.mem_eraseDups.2 ha), index, others, and_iff_right ha]

-- To have an element stand first takes a place away from others only if it had none.

theorem take_filter_ne_of_mem (nodup : l.Nodup) (ha : a ∈ l.take (n + 1)) :
    (l.filter (· ≠ a)).take n = (l.take (n + 1)).filter (· ≠ a) := by
  induction l generalizing n
  case nil => simp
  case cons b l hi =>
    have ⟨new, nodup⟩ := List.nodup_cons.1 nodup
    rw [List.take_succ_cons] at ha ⊢
    by_cases hb : b = a
    case pos =>
      subst hb
      have others {l : List α} (hl : b ∉ l) : l.filter (· ≠ b) = l :=
        List.filter_eq_self.2 fun c hc => by simpa using fun h : c = b => hl (h ▸ hc)
      rw [List.filter_cons_of_neg (by simp), List.filter_cons_of_neg (by simp), others new,
        others fun h => new (List.mem_of_mem_take h)]
    case neg =>
      have ha := List.mem_of_ne_of_mem (Ne.symm hb) ha
      rw [List.filter_cons_of_pos (by simpa using hb), List.filter_cons_of_pos (by simpa using hb)]
      cases n
      case zero => simp at ha
      case succ n => rw [List.take_succ_cons, hi nodup ha]

theorem take_filter_ne_of_notMem (ha : a ∉ l.take (n + 1)) :
    (l.filter (· ≠ a)).take n = l.take n := by
  induction l generalizing n
  case nil => rfl
  case cons b l hi =>
    rw [List.take_succ_cons, List.mem_cons, not_or] at ha
    rw [List.filter_cons_of_pos (by simpa using Ne.symm ha.1)]
    cases n
    case zero => rfl
    case succ n => rw [List.take_succ_cons, List.take_succ_cons, hi ha.2]

theorem eraseDups_cons_eq : (a :: l).eraseDups = a :: l.eraseDups.filter (· ≠ a) := by
  have others (b : α) : (!b == a) = decide (b ≠ a) := by rw [Bool.eq_iff_iff]; simp
  rw [List.eraseDups_cons, ← eraseDups_filter, List.filter_congr fun b _ => others b]

theorem take_eraseDups_cons_of_mem (ha : a ∈ l.eraseDups.take (n + 1)) :
    (a :: l).eraseDups.take (n + 1) = a :: (l.eraseDups.take (n + 1)).filter (· ≠ a) := by
  rw [eraseDups_cons_eq, List.take_succ_cons, take_filter_ne_of_mem nodup_eraseDups ha]

theorem take_eraseDups_cons_of_notMem (ha : a ∉ l.eraseDups.take (n + 1)) :
    (a :: l).eraseDups.take (n + 1) = a :: l.eraseDups.take n := by
  rw [eraseDups_cons_eq, List.take_succ_cons, take_filter_ne_of_notMem ha]

end PolicyTree
