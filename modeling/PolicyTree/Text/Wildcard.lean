namespace PolicyTree.Text.Wildcard

variable {α : Type _}

inductive Matches (star : α) : (pattern text : List α) → Prop where
  | nil : Matches star [] []
  | char {c p t} (ne : c ≠ star) (h : Matches star p t) : Matches star (c :: p) (c :: t)
  | star {p t} (run : List α) (h : Matches star p t) : Matches star (star :: p) (run ++ t)

-- Where text and pattern part, the run of the star passed last takes in one more element, and what
-- follows that star is tried again; the stars before it are not gone back to. What followed the
-- last star in the pattern, and what its run so far has left of the text, is kept in `retry`.
structure Scan (α : Type _) where
  pattern : List α
  text    : List α
  retry   : Option (List α × List α)

namespace Scan

def start (pattern text : List α) : Scan α := ⟨pattern, text, none⟩

def again : Option (List α × List α) → Option (Scan α)
  | some (pattern, _ :: text) => some ⟨pattern, text, some (pattern, text)⟩
  | _ => none

variable {star : α} {s s' : Scan α}

def next [DecidableEq α] (star : α) : Scan α → Option (Scan α)
  | ⟨_, [], _⟩ => none
  | ⟨[], _ :: _, retry⟩ => again retry
  | ⟨p :: pattern, c :: text, retry⟩ =>
    if p = star then some ⟨pattern, c :: text, some (pattern, c :: text)⟩
    else if p = c then some ⟨pattern, text, retry⟩
    else again retry

def isMatch [DecidableEq α] (star : α) (s : Scan α) : Bool :=
  s.text.isEmpty && s.pattern.all (· = star)

-- What a pass can do. Only where the two have parted the last star is turned to again.
inductive Pass (star : α) : Scan α → Scan α → Prop where
  | star {pattern c text retry} :
    Pass star ⟨star :: pattern, c :: text, retry⟩ ⟨pattern, c :: text, some (pattern, c :: text)⟩
  | char {pattern c text retry} (ne : c ≠ star) :
    Pass star ⟨c :: pattern, c :: text, retry⟩ ⟨pattern, text, retry⟩
  | again {pattern c text after d rest} (parted : ∀ p ∈ pattern.head?, p ≠ star ∧ p ≠ c) :
    Pass star ⟨pattern, c :: text, some (after, d :: rest)⟩ ⟨after, rest, some (after, rest)⟩

theorem pass_of_again {pattern c text retry} (parted : ∀ p ∈ pattern.head?, p ≠ star ∧ p ≠ c)
    (h : again retry = some s') : Pass star ⟨pattern, c :: text, retry⟩ s' := by
  unfold again at h
  split at h
  case h_1 =>
    cases h
    exact .again parted
  case h_2 => cases h

theorem pass_of_next [DecidableEq α] (h : s.next star = some s') : Pass star s s' := by
  unfold next at h
  split at h
  case h_1 => cases h
  case h_2 => exact pass_of_again (by simp) h
  case h_3 p pattern c text retry =>
    split at h
    case isTrue hs =>
      cases hs
      cases h
      exact .star
    case isFalse hs =>
      split at h
      case isTrue hc =>
        cases hc
        cases h
        exact .char hs
      case isFalse hc => exact pass_of_again (by simp [hs, hc]) h

-- What a try from here on goes through at most, of the pattern and of the text.
def extent (s : Scan α) : Nat × Nat :=
  let (pattern, text) := s.retry.getD (s.pattern, s.text)
  (max s.pattern.length pattern.length, max s.text.length text.length)

-- More passes than this are not left: the pattern is gone through to its end, and then at most once
-- more for each element that the last star can still take in.
def budget (s : Scan α) : Nat := s.pattern.length + s.extent.2 * (s.extent.1 + 1)

theorem budget_lt_of_pattern (shorter : s'.pattern.length < s.pattern.length)
    (pattern : s'.extent.1 ≤ s.extent.1) (text : s'.extent.2 ≤ s.extent.2) :
    s'.budget < s.budget :=
  Nat.add_lt_add_of_lt_of_le shorter (Nat.mul_le_mul text (Nat.succ_le_succ pattern))

theorem budget_lt_of_text (pattern : s'.extent.1 ≤ s.extent.1) (text : s'.extent.2 < s.extent.2) :
    s'.budget < s.budget := by
  have within : s'.pattern.length ≤ s'.extent.1 := Nat.le_max_left ..
  calc
    s'.budget ≤ s'.extent.1 + s'.extent.2 * (s'.extent.1 + 1) := Nat.add_le_add_right within _
    _ < (s'.extent.2 + 1) * (s'.extent.1 + 1) := by rw [Nat.add_mul]; omega
    _ ≤ s.extent.2 * (s.extent.1 + 1) := Nat.mul_le_mul text (Nat.succ_le_succ pattern)
    _ ≤ s.budget := Nat.le_add_left ..

theorem Pass.budget_lt (h : Pass star s s') : s'.budget < s.budget := by
  cases h
  case star =>
    apply budget_lt_of_pattern <;> simp only [extent, Option.getD_some, List.length_cons] <;> omega
  case char retry _ =>
    cases retry <;> apply budget_lt_of_pattern <;>
      simp only [extent, Option.getD_some, Option.getD_none, List.length_cons] <;> omega
  case again =>
    apply budget_lt_of_text <;> simp only [extent, Option.getD_some, List.length_cons] <;> omega

def run [DecidableEq α] (star : α) (s : Scan α) : Scan α :=
  match _ : s.next star with
  | some s' => run star s'
  | none => s
termination_by s.budget
decreasing_by exact (pass_of_next ‹_›).budget_lt

end Scan

def test [DecidableEq α] (star : α) (pattern text : List α) : Bool :=
  ((Scan.start pattern text).run star).isMatch star

end PolicyTree.Text.Wildcard
