namespace PolicyTree.Text

variable {α : Type _} [DecidableEq α] {sep : α}

-- The piece before the first separator, and the pieces after each separator.
def cut (sep : α) : List α → List α × List (List α)
  | [] => ([], [])
  | c :: cs =>
    let (first, more) := cut sep cs
    if c = sep then ([], first :: more) else (c :: first, more)

def pieces (sep : α) (cs : List α) : List (List α) :=
  (cut sep cs).1 :: (cut sep cs).2

def glue (sep : α) (first : List α) (more : List (List α)) : List α :=
  first ++ more.flatMap (sep :: ·)

@[simp] theorem glue_cut (cs : List α) : glue sep (cut sep cs).1 (cut sep cs).2 = cs := by
  induction cs with
  | nil => rfl
  | cons c cs ih =>
    by_cases h : c = sep
    · simp_all [cut, glue]
    · simpa [cut, glue, h] using ih

theorem sep_not_mem_cut (cs : List α) : sep ∉ (cut sep cs).1 ∧ ∀ p ∈ (cut sep cs).2, sep ∉ p := by
  induction cs with
  | nil => simp [cut]
  | cons c cs ih =>
    by_cases h : c = sep
    · simpa [cut, h] using ih
    · simpa [cut, h, Ne.symm h] using ih

theorem cut_of_not_mem {cs : List α} (h : sep ∉ cs) : cut sep cs = (cs, []) := by
  induction cs with
  | nil => rfl
  | cons c cs ih =>
    have ⟨hc, hcs⟩ := not_or.1 (mt List.mem_cons.2 h)
    simp [cut, ih hcs, Ne.symm hc]

theorem cut_append_sep {first : List α} (rest : List α) (h : sep ∉ first) :
    cut sep (first ++ sep :: rest) = (first, pieces sep rest) := by
  induction first with
  | nil => simp [cut, pieces]
  | cons c cs ih =>
    have ⟨hc, hcs⟩ := not_or.1 (mt List.mem_cons.2 h)
    simp [cut, ih hcs, Ne.symm hc]

end PolicyTree.Text
