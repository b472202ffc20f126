import Mathlib.Data.List.Infix
import PolicyTree.Text.Wildcard

namespace PolicyTree.Text.Wildcard

variable {α : Type _} {star c : α} {pattern text same : List α}

namespace Matches

theorem nil_iff : Matches star [] text ↔ text = [] := by
  constructor
  case mp  => rintro ⟨⟩; rfl
  case mpr => rintro rfl; exact .nil

theorem star_iff :
    Matches star (star :: pattern) text ↔ ∃ rest, rest <:+ text ∧ Matches star pattern rest := by
  constructor
  case mp =>
    intro h
    cases h
    case char ne _   => contradiction
    case star run h => exact ⟨_, List.suffix_append .., h⟩
  case mpr =>
    rintro ⟨rest, ⟨run, rfl⟩, h⟩
    exact .star run h

theorem cons_iff (ne : c ≠ star) :
    Matches star (c :: pattern) text ↔ ∃ rest, text = c :: rest ∧ Matches star pattern rest := by
  constructor
  case mp =>
    intro h
    cases h
    case char h => exact ⟨_, rfl, h⟩
    case star => contradiction
  case mpr =>
    rintro ⟨rest, rfl, h⟩
    exact .char ne h

-- What is without a star is matched by itself alone.
theorem append_iff (plain : star ∉ same) :
    Matches star (same ++ pattern) text ↔
      ∃ rest, text = same ++ rest ∧ Matches star pattern rest := by
  induction same generalizing text
  case nil => simp
  case cons c same hi =>
    have ⟨ne, plain⟩ := not_or.1 (mt List.mem_cons.2 plain)
    simp only [List.cons_append, cons_iff (Ne.symm ne), hi plain]
    constructor
    case mp =>
      rintro ⟨_, rfl, rest, rfl, h⟩
      exact ⟨rest, rfl, h⟩
    case mpr =>
      rintro ⟨rest, rfl, h⟩
      exact ⟨_, rfl, rest, rfl, h⟩

theorem append_append_iff (plain : star ∉ same) :
    Matches star (same ++ pattern) (same ++ text) ↔ Matches star pattern text := by
  simp [append_iff plain]

theorem iff_eq_of_plain (plain : star ∉ pattern) :
    Matches star pattern text ↔ text = pattern := by
  conv_lhs => rw [← List.append_nil pattern, append_iff plain]
  simp [nil_iff]

theorem nil_right_iff : Matches star pattern [] ↔ ∀ c ∈ pattern, c = star := by
  induction pattern
  case nil => simp [nil_iff]
  case cons c pattern hi =>
    by_cases hc : c = star
    case pos =>
      subst hc
      simp [star_iff, hi]
    case neg => simp [cons_iff hc, hc]

-- The two part where the pattern is at its end or asks for another element.
theorem not_of_parted (parted : ∀ p ∈ pattern.head?, p ≠ star ∧ p ≠ c) :
    ¬Matches star pattern (c :: text) := by
  cases pattern
  case nil => simp [nil_iff]
  case cons p pattern =>
    have ⟨ne, ne'⟩ := parted p rfl
    simp [cons_iff ne, Ne.symm ne']

theorem after_star (plain : star ∉ same) (h : Matches star pattern text) :
    Matches star (star :: (same ++ pattern)) (same ++ text) :=
  .star [] ((append_append_iff plain).2 h)

-- What comes after a star is found no earlier than where the text goes along with it.
theorem exists_suffix (plain : star ∉ same)
    (h : Matches star (star :: (same ++ pattern)) (same ++ text)) :
    ∃ rest, rest <:+ text ∧ Matches star pattern rest := by
  obtain ⟨later, suffix, found⟩ := star_iff.1 h
  obtain ⟨rest, rfl, matched⟩ := (append_iff plain).1 found
  have shorter : rest.length ≤ text.length := by simpa using suffix.length_le
  have : rest <:+ text := List.suffix_of_suffix_length_le
    ((List.suffix_append ..).trans suffix) (List.suffix_append ..) shorter
  exact ⟨rest, this, matched⟩

-- What an earlier star takes in besides, the last one can take in itself.
theorem last_star_iff (plain : star ∉ same) :
    Matches star (star :: (same ++ star :: pattern)) (same ++ text) ↔
      Matches star (star :: pattern) text := by
  constructor
  case mp =>
    intro h
    obtain ⟨rest, suffix, h⟩ := exists_suffix plain h
    obtain ⟨last, suffix', h⟩ := star_iff.1 h
    exact star_iff.2 ⟨last, suffix'.trans suffix, h⟩
  case mpr => exact after_star plain

end Matches

namespace Scan

variable {s s' : Scan α}

-- Since the last star was passed the two have gone along together.
def Aligned (star : α) (s : Scan α) : Prop :=
  ∀ after rest, s.retry = some (after, rest) →
    ∃ same, star ∉ same ∧ after = same ++ s.pattern ∧ rest = same ++ s.text

-- What is left to find out. Of all the stars passed only the last one counts.
def Sought (star : α) (s : Scan α) : Prop :=
  match s.retry with
  | none => Matches star s.pattern s.text
  | some (after, rest) => Matches star (star :: after) rest

theorem Pass.aligned (h : Pass star s s') (aligned : s.Aligned star) : s'.Aligned star := by
  cases h
  case star =>
    rintro _ _ ⟨⟩
    exact ⟨[], by simp⟩
  case char pattern c text retry ne =>
    intro after rest hr
    obtain ⟨same, plain, ha, hr⟩ := aligned after rest hr
    exact ⟨same ++ [c], by simp [plain, Ne.symm ne], by simp [ha], by simp [hr]⟩
  case again =>
    rintro _ _ ⟨⟩
    exact ⟨[], by simp⟩

theorem Pass.sought_iff (h : Pass star s s') (aligned : s.Aligned star) :
    s'.Sought star ↔ s.Sought star := by
  cases h
  case star pattern c text retry =>
    cases retry
    case none => rfl
    case some last =>
      obtain ⟨same, plain, ha, hr⟩ := aligned _ _ rfl
      simp only [Sought, ha, hr]
      exact (Matches.last_star_iff plain).symm
  case char pattern c text retry ne =>
    cases retry
    case none => simp [Sought, Matches.cons_iff ne]
    case some => rfl
  case again pattern c text after d rest parted =>
    obtain ⟨same, plain, ha, hr⟩ := aligned _ _ rfl
    have here : ¬Matches star after (d :: rest) := by
      rw [ha, hr, Matches.append_append_iff plain]
      exact Matches.not_of_parted parted
    simp [Sought, Matches.star_iff, List.suffix_cons_iff, or_and_right, exists_or, here]

theorem parted_of_next [DecidableEq α] {retry}
    (h : next star ⟨pattern, c :: text, retry⟩ = none) :
    (∀ p ∈ pattern.head?, p ≠ star ∧ p ≠ c) ∧ again retry = none := by
  cases pattern
  case nil => simpa [next] using h
  case cons p pattern =>
    simp only [next, ite_eq_iff, reduceCtorEq, and_false, false_or] at h
    simpa [and_assoc] using h

-- Once the text is used up the last star can not have taken in more than it has.
theorem sought_nil_iff {retry} (aligned : Aligned star ⟨pattern, [], retry⟩) :
    Sought star ⟨pattern, [], retry⟩ ↔ Matches star pattern [] := by
  cases retry
  case none => rfl
  case some last =>
    obtain ⟨same, plain, ha, hr⟩ := aligned _ _ rfl
    simp only [Sought, ha, hr]
    constructor
    case mp =>
      intro h
      obtain ⟨rest, suffix, h⟩ := Matches.exists_suffix plain h
      rwa [List.suffix_nil.1 suffix] at h
    case mpr => exact Matches.after_star plain

-- The last star always has something to take in, so there is none.
theorem not_sought_of_stuck {retry} (aligned : Aligned star ⟨pattern, c :: text, retry⟩)
    (parted : ∀ p ∈ pattern.head?, p ≠ star ∧ p ≠ c) (stuck : again retry = none) :
    ¬Sought star ⟨pattern, c :: text, retry⟩ := by
  cases retry
  case none => exact Matches.not_of_parted parted
  case some last =>
    obtain ⟨after, rest⟩ := last
    obtain ⟨same, -, -, hr⟩ := aligned _ _ rfl
    cases rest
    case nil  => simp at hr
    case cons => simp [again] at stuck

theorem isMatch_iff_of_next [DecidableEq α] (h : s.next star = none) (aligned : s.Aligned star) :
    s.isMatch star ↔ s.Sought star := by
  obtain ⟨pattern, text, retry⟩ := s
  cases text
  case nil => simp [isMatch, sought_nil_iff aligned, Matches.nil_right_iff]
  case cons c text =>
    obtain ⟨parted, stuck⟩ := parted_of_next h
    simp [isMatch, not_sought_of_stuck aligned parted stuck]

theorem isMatch_run_iff [DecidableEq α] (aligned : s.Aligned star) :
    (s.run star).isMatch star ↔ s.Sought star := by
  induction s using run.induct star
  case case1 s s' hn hi =>
    have pass := pass_of_next hn
    rw [run, hn]
    exact (hi (pass.aligned aligned)).trans (pass.sought_iff aligned)
  case case2 s hn =>
    rw [run, hn]
    exact isMatch_iff_of_next hn aligned

-- Each pass takes from the budget.
theorem length_le_budget [DecidableEq α] {passed : List (Scan α)}
    (h : (s :: passed).IsChain fun s s' => s.next star = some s') :
    passed.length ≤ s.budget := by
  induction passed generalizing s
  case nil => simp
  case cons s' passed hi =>
    rw [List.isChain_cons_cons] at h
    have := hi h.2
    have := (pass_of_next h.1).budget_lt
    simp only [List.length_cons]
    omega

end Scan

variable [DecidableEq α]

theorem test_iff : test star pattern text ↔ Matches star pattern text :=
  Scan.isMatch_run_iff (by simp [Scan.Aligned, Scan.start])

-- The loop tells exactly the texts that the pattern stands for, and it ends: no run of it, however
-- far it goes, has more passes than this.
theorem test_decides_in_time (star : α) (pattern text : List α) :
    (test star pattern text ↔ Matches star pattern text) ∧
    ∀ passed, (Scan.start pattern text :: passed).IsChain (fun s s' => s.next star = some s') →
      passed.length < (pattern.length + 1) * (text.length + 1) := by
  constructor
  case left => exact test_iff
  case right =>
    intro passed h
    have within := Scan.length_le_budget h
    have : (Scan.start pattern text).budget =
        pattern.length + text.length * (pattern.length + 1) := by
      simp [Scan.budget, Scan.extent, Scan.start]
    rw [Nat.mul_succ, Nat.mul_comm]
    omega

end PolicyTree.Text.Wildcard
