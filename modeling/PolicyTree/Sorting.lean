namespace PolicyTree

variable {α κ : Type _} [Ord κ]

-- Insertion sort: the lists are short, and it evaluates by itself in proofs.
def insertOn (key : α → κ) (x : α) : List α → List α
  | [] => [x]
  | y :: ys => if (compare (key y) (key x)).isLT then y :: insertOn key x ys else x :: y :: ys

def sortOn (key : α → κ) (xs : List α) : List α := xs.foldr (insertOn key) []

theorem insertOn_perm (key : α → κ) (x : α) (ys : List α) : (insertOn key x ys).Perm (x :: ys) := by
  induction ys with
  | nil => exact .refl _
  | cons y ys ih =>
    unfold insertOn
    split
    · exact (ih.cons y).trans (.swap x y ys)
    · exact .refl _

theorem sortOn_perm (key : α → κ) (xs : List α) : (sortOn key xs).Perm xs := by
  induction xs with
  | nil => exact .refl _
  | cons x xs ih => exact (insertOn_perm key x _).trans (ih.cons x)

@[simp] theorem mem_sortOn {key : α → κ} {xs : List α} {x : α} : x ∈ sortOn key xs ↔ x ∈ xs :=
  (sortOn_perm key xs).mem_iff

@[simp] theorem length_sortOn {key : α → κ} {xs : List α} : (sortOn key xs).length = xs.length :=
  (sortOn_perm key xs).length_eq

-- By a key, and where the keys are the same by another order.
def ByKey (key : α → κ) (R : α → α → Prop) (a b : α) : Prop :=
  compare (key a) (key b) = .lt ∨ compare (key a) (key b) = .eq ∧ R a b

variable [Std.TransOrd κ]

theorem insertOn_stable {key : α → κ} {R : α → α → Prop} {x : α} {ys : List α}
    (hx : ∀ y ∈ ys, R x y) (h : ys.Pairwise (ByKey key R)) :
    (insertOn key x ys).Pairwise (ByKey key R) := by
  induction ys with
  | nil => simp [insertOn]
  | cons y ys ih =>
    have ⟨hy, hys⟩ := List.pairwise_cons.1 h
    unfold insertOn
    split
    case isTrue lt =>
      refine List.pairwise_cons.2 ⟨fun z hz => ?_, ih (fun z hz => hx z (by simp [hz])) hys⟩
      rcases List.mem_cons.1 ((insertOn_perm key x ys).mem_iff.1 hz) with rfl | hz
      · exact .inl (by simpa using lt)
      · exact hy z hz
    case isFalse nlt =>
      have le : (compare (key x) (key y)).isLE := by
        rw [Std.OrientedOrd.eq_swap (a := key y)] at nlt
        revert nlt
        cases compare (key x) (key y) <;> decide
      have near {z : α} (hz : R x z) (le : (compare (key x) (key z)).isLE) : ByKey key R x z := by
        cases hc : compare (key x) (key z)
        case lt => exact .inl hc
        case eq => exact .inr ⟨hc, hz⟩
        case gt => simp [hc] at le
      refine List.pairwise_cons.2 ⟨fun z hz => near (hx z hz) ?_, h⟩
      rcases List.mem_cons.1 hz with rfl | hz
      · exact le
      · refine Std.TransCmp.isLE_trans le ?_
        cases hy z hz with
        | inl lt => simp [lt]
        | inr eq => simp [eq.1]

theorem sortOn_stable {key : α → κ} {R : α → α → Prop} {xs : List α} (h : xs.Pairwise R) :
    (sortOn key xs).Pairwise (ByKey key R) := by
  induction xs with
  | nil => exact .nil
  | cons x xs ih =>
    have ⟨hx, hxs⟩ := List.pairwise_cons.1 h
    exact insertOn_stable (fun y hy => hx y (mem_sortOn.1 hy)) (ih hxs)

theorem sortOn_sorted (key : α → κ) (xs : List α) :
    (sortOn key xs).Pairwise fun a b => (compare (key a) (key b)).isLE := by
  have any : xs.Pairwise fun _ _ => True := List.pairwise_of_forall fun _ _ => trivial
  exact (sortOn_stable any).imp fun hab =>
    hab.elim (fun lt => by simp [lt]) fun eq => by simp [eq.1]

variable [Std.LawfulEqOrd κ]

-- Where no two keys are the same there is but one order.

theorem sortOn_strict {key : α → κ} {xs : List α} (h : xs.Pairwise fun a b => key a ≠ key b) :
    (sortOn key xs).Pairwise fun a b => compare (key a) (key b) = .lt :=
  (sortOn_stable h).imp fun hab => hab.resolve_right fun hc =>
    hc.2 (Std.LawfulEqOrd.eq_of_compare hc.1)

theorem sortOn_congr {key : α → κ} {xs ys : List α} (h : xs.Pairwise fun a b => key a ≠ key b)
    (p : ys.Perm xs) : sortOn key ys = sortOn key xs := by
  have h' := (p.pairwise_iff fun hab => Ne.symm hab).2 h
  refine List.Perm.eq_of_pairwise (fun a b _ _ hab hba => ?_) (sortOn_strict h') (sortOn_strict h)
    ((sortOn_perm key ys).trans (p.trans (sortOn_perm key xs).symm))
  rw [Std.OrientedOrd.eq_swap (a := key b), hab] at hba
  exact nomatch hba

end PolicyTree
