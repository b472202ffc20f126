import Mathlib.Algebra.BigOperators.Field
import Mathlib.Algebra.Order.BigOperators.Group.Finset
import Mathlib.Algebra.Order.Field.Basic
import Mathlib.Data.Rat.Cast.Order
import Mathlib.Tactic.Positivity
import PolicyTree.Proofs.Privilege.Covering

namespace PolicyTree

-- Sets are counted by what their elements are worth, as long as every set is shared out evenly.

section

variable {ι κ : Type} [Fintype ι] [Fintype κ] {r : ι → Finset ℕ} {o : κ → Finset ℕ}
  {s t : Finset ℕ} {x : ℕ}

def worth (s : Finset ℕ) (x : ℕ) : ℚ := if x ∈ s then (s.card : ℚ)⁻¹ else 0

theorem worth_nonneg : 0 ≤ worth s x := by
  unfold worth
  split <;> positivity

theorem worth_le_worth (hs : x ∈ s) (ht : x ∈ t) (le : t.card ≤ s.card) :
    worth s x ≤ worth t x := by
  have filled : (0 : ℚ) < t.card := by exact_mod_cast Finset.card_pos.2 ⟨x, ht⟩
  rw [worth, worth, if_pos hs, if_pos ht]
  exact inv_anti₀ filled (by exact_mod_cast le)

theorem sum_worth : ∑ x ∈ t, worth s x = (t ∩ s).card / s.card := by
  simp [worth, div_eq_mul_inv]

theorem sum_worth_self (nonempty : s.Nonempty) : ∑ x ∈ s, worth s x = 1 := by
  rw [sum_worth, Finset.inter_self]
  exact div_self (by exact_mod_cast (Finset.card_pos.2 nonempty).ne')

theorem sum_sum_worth_le (disjoint : Pairwise fun i j => Disjoint (r i) (r j)) :
    ∑ i, ∑ x ∈ r i, worth s x ≤ 1 := by
  have apart : ((Finset.univ : Finset ι) : Set ι).PairwiseDisjoint fun i => r i ∩ s :=
    fun _ _ _ _ hi => (disjoint hi).mono Finset.inter_subset_left Finset.inter_subset_left
  have inside : ∑ i, (r i ∩ s).card ≤ s.card := by
    rw [← Finset.card_biUnion apart]
    exact Finset.card_le_card (Finset.biUnion_subset.2 fun i _ => Finset.inter_subset_right)
  calc ∑ i, ∑ x ∈ r i, worth s x
    _ = (∑ i, (r i ∩ s).card : ℕ) / (s.card : ℚ) := by simp [sum_worth, Finset.sum_div]
    _ ≤ 1 := div_le_one_of_le₀ (by exact_mod_cast inside) (by positivity)

-- Disjoint sets that are covered by others, each no larger than those it meets, are no more than
-- these: an element is worth no less to the set that covers it.
theorem card_le_card_of_covers (nonempty : ∀ i, (r i).Nonempty)
    (disjoint : Pairwise fun i j => Disjoint (r i) (r j)) (covers : ∀ i, ∀ x ∈ r i, ∃ j, x ∈ o j)
    (le : ∀ i j, ∀ x ∈ r i, x ∈ o j → (o j).card ≤ (r i).card) :
    Fintype.card ι ≤ Fintype.card κ := by
  have each (i : ι) (x : ℕ) (hx : x ∈ r i) : worth (r i) x ≤ ∑ j, worth (o j) x := by
    obtain ⟨j, hj⟩ := covers i x hx
    calc worth (r i) x
      _ ≤ worth (o j) x := worth_le_worth hx hj (le i j x hx hj)
      _ ≤ ∑ j, worth (o j) x :=
        Finset.single_le_sum (f := fun j => worth (o j) x) (fun _ _ => worth_nonneg)
          (Finset.mem_univ j)
  have : (Fintype.card ι : ℚ) ≤ Fintype.card κ := by
    calc (Fintype.card ι : ℚ)
      _ = ∑ i, ∑ x ∈ r i, worth (r i) x := by
        rw [Finset.sum_congr rfl fun i _ => sum_worth_self (nonempty i)]
        simp
      _ ≤ ∑ i, ∑ x ∈ r i, ∑ j, worth (o j) x :=
        Finset.sum_le_sum fun i _ => Finset.sum_le_sum (each i)
      _ = ∑ j, ∑ i, ∑ x ∈ r i, worth (o j) x := by
        rw [Finset.sum_comm]
        exact Finset.sum_congr rfl fun i _ => Finset.sum_comm
      _ ≤ ∑ _ : κ, 1 := Finset.sum_le_sum fun j _ => sum_sum_worth_le disjoint
      _ = Fintype.card κ := by simp
  exact_mod_cast this

end

namespace FlagSet

variable {w : Nat} {a b : FlagSet w} {i : Nat}

def toFinset (a : FlagSet w) : Finset ℕ := (Finset.range w).filter (· ∈ a)

@[simp] theorem mem_toFinset : i ∈ a.toFinset ↔ i ∈ a := by
  simpa [toFinset] using fun h => lt_of_mem h

theorem card_toFinset : a.toFinset.card = a.card := by
  rw [card, List.countP_eq_length_filter]
  rfl

theorem eq_of_subset_of_card_le (sub : a ⊆ b) (le : b.card ≤ a.card) : a = b := by
  have sub : a.toFinset ⊆ b.toFinset := fun i => by simpa using subset_iff.1 sub i
  have := Finset.eq_of_subset_of_card_le sub (by rwa [card_toFinset, card_toFinset])
  ext i
  rw [← mem_toFinset, this, mem_toFinset]

end FlagSet

namespace Registry

variable {r : Registry} {p q : Privilege} {bits remaining : PrivilegeBits} {i : Nat}
  {candidates customs : List Privilege}

-- Each privilege is taken for a bit that no other taken before it carries.
theorem exists_find_cover (hp : p ∈ cover bits remaining candidates) :
    ∃ i ∈ remaining, (cover bits remaining candidates).find? (i ∈ ·.bits) = some p := by
  induction candidates generalizing remaining
  case nil => exact absurd (mem_cover hp).1 List.not_mem_nil
  case cons c candidates ih =>
    unfold cover at hp ⊢
    split at hp
    case isFalse skipped => exact if_neg skipped ▸ ih hp
    case isTrue taken =>
      rw [if_pos taken]
      rcases List.mem_cons.1 hp with rfl | hp
      case inl =>
        obtain ⟨i, hi, left⟩ := FlagSet.meets_iff.1 taken.2
        exact ⟨i, left, List.find?_cons_of_pos (by simpa using hi)⟩
      case inr =>
        obtain ⟨i, left, hf⟩ := ih hp
        obtain ⟨left, other⟩ := FlagSet.mem_sdiff.1 left
        exact ⟨i, left, by rwa [List.find?_cons_of_neg (by simpa using other)]⟩

-- The first that is taken of those that carry a bit is as large as any.
theorem card_le_of_find_cover (sorted : candidates.Pairwise fun a b => b.bits.card ≤ a.bits.card)
    (left : i ∈ remaining) (hf : (cover bits remaining candidates).find? (i ∈ ·.bits) = some p)
    (hq : q ∈ candidates) (sub : q.bits ⊆ bits) (hi : i ∈ q.bits) :
    q.bits.card ≤ p.bits.card := by
  induction candidates generalizing remaining
  case nil => simp at hq
  case cons c candidates ih =>
    have ⟨largest, sorted⟩ := List.pairwise_cons.1 sorted
    unfold cover at hf
    split at hf
    case isFalse skipped =>
      have later : q ∈ candidates := (List.mem_cons.1 hq).resolve_left fun h =>
        skipped (h ▸ ⟨sub, FlagSet.meets_iff.2 ⟨i, hi, left⟩⟩)
      exact ih sorted left hf later
    case isTrue taken =>
      by_cases hc : i ∈ c.bits
      case pos =>
        rw [List.find?_cons_of_pos (by simpa using hc)] at hf
        obtain rfl := Option.some_inj.1 hf
        rcases List.mem_cons.1 hq with rfl | hq
        · exact le_rfl
        · exact largest q hq
      case neg =>
        rw [List.find?_cons_of_neg (by simpa using hc)] at hf
        have later : q ∈ candidates := (List.mem_cons.1 hq).resolve_left fun h => hc (h ▸ hi)
        exact ih sorted (FlagSet.mem_sdiff.2 ⟨left, hc⟩) hf later

theorem candidates_sorted : r.candidates.Pairwise fun a b => b.bits.card ≤ a.bits.card := by
  refine (sortOn_sorted _ _).imp fun {a b} hab => ?_
  have hb : b.bits.card ≤ 64 := by
    simpa [FlagSet.card] using List.countP_le_length (p := (· ∈ b.bits)) (l := List.range 64)
  have := Nat.isLE_compare.1 hab
  omega

theorem exists_mem_bits (hp : p ∈ privilegesFor.rest r bits) : ∃ i, i ∈ p.bits := by
  by_contra none
  exact (mem_rest hp).2.2.1 (FlagSet.eq_empty_iff.2 (not_exists.1 none))

theorem eq_of_find?_eq_some {α : Type} {l : List α} {a b : α} {f g : α → Bool}
    (ha : l.find? f = some a) (hb : l.find? g = some b) (hg : g a) (hf : f b) : a = b := by
  induction l
  case nil => simp at ha
  case cons c l hi => grind

theorem eq_of_bits_eq (hp : p ∈ privilegesFor.rest r bits) (hq : q ∈ privilegesFor.rest r bits)
    (same : p.bits = q.bits) : p = q := by
  obtain ⟨i, _, hi⟩ := exists_find_cover (mem_sortOn.1 hp)
  obtain ⟨j, _, hj⟩ := exists_find_cover (mem_sortOn.1 hq)
  refine eq_of_find?_eq_some hi hj ?_ ?_
  · simpa [same] using List.find?_some hj
  · simpa [← same] using List.find?_some hi

namespace Ledger

-- If not all privileges are asked for, each that lies in the bits and carries some is a candidate.
theorem mem_candidates (h : Ledger customs r) (known : q ∈ r.toList) (sub : q.bits ⊆ bits)
    (hi : i ∈ q.bits) (part : ¬r.allBits ⊆ bits) : q ∈ r.candidates := by
  refine Registry.mem_candidates.2 ⟨known, fun named => part ?_, fun none => ?_⟩
  · have := get_eq_ok_iff.1 ((h.accounts.known q).1 known)
    rw [named, h.all] at this
    rwa [h.allBits_eq, Option.some.inj this]
  · exact FlagSet.eq_empty_iff.1 none i hi

-- No larger privilege could take the place of one that is found.
theorem bits_eq_of_subset (h : Ledger customs r) (part : ¬r.allBits ⊆ bits)
    (hp : p ∈ privilegesFor.rest r bits) (known : q ∈ r.toList) (sub : q.bits ⊆ bits)
    (larger : p.bits ⊆ q.bits) : p.bits = q.bits := by
  obtain ⟨i, left, hf⟩ := exists_find_cover (mem_sortOn.1 hp)
  have hi : i ∈ q.bits := FlagSet.subset_iff.1 larger i (by simpa using List.find?_some hf)
  exact FlagSet.eq_of_subset_of_card_le larger
    (card_le_of_find_cover candidates_sorted left hf (h.mem_candidates known sub hi part) sub hi)

end Ledger

section

variable (apart : (privilegesFor.rest r bits).Pairwise fun p q => ¬p.bits.meets q.bits)

include apart

theorem eq_of_mem_rest (hp : p ∈ privilegesFor.rest r bits) (hq : q ∈ privilegesFor.rest r bits)
    (hip : i ∈ p.bits) (hiq : i ∈ q.bits) : p = q := by
  have : Std.Symm fun p q : Privilege => ¬p.bits.meets q.bits :=
    ⟨fun p q h => by simpa [FlagSet.meets_iff, and_comm] using h⟩
  by_contra ne
  exact apart.forall hp hq ne (FlagSet.meets_iff.2 ⟨i, hip, hiq⟩)

-- Where no two share a bit, each is as large as any candidate that it shares one with.
theorem card_le_of_mem_rest (hp : p ∈ privilegesFor.rest r bits) (hip : i ∈ p.bits)
    (hq : q ∈ r.candidates) (sub : q.bits ⊆ bits) (hiq : i ∈ q.bits) :
    q.bits.card ≤ p.bits.card := by
  have taken := mem_sortOn.1 hp
  have hi := FlagSet.subset_iff.1 (mem_cover taken).2 i hip
  have hf := List.find?_isSome (p := (i ∈ ·.bits)).2 ⟨p, taken, by simpa using hip⟩
  obtain ⟨first, hf⟩ := Option.isSome_iff_exists.1 hf
  have hif : i ∈ first.bits := by simpa using List.find?_some hf
  obtain rfl := eq_of_mem_rest apart hp (mem_sortOn.2 (List.mem_of_find?_eq_some hf)) hip hif
  exact card_le_of_find_cover candidates_sorted hi hf hq sub hiq

theorem length_rest_le (h : Ledger customs r) {l : List Privilege} (part : ¬r.allBits ⊆ bits)
    (known : ∀ p ∈ l, p ∈ r.toList ∧ p.bits ⊆ bits)
    (covers : Privilege.bitsOf l = bits ∩ r.allBits) :
    (privilegesFor.rest r bits).length ≤ l.length := by
  let found := privilegesFor.rest r bits
  have disjoint : Pairwise fun i j : Fin found.length =>
      Disjoint found[i].bits.toFinset found[j].bits.toFinset := by
    have := List.pairwise_iff_getElem.1 apart
    intro i j ne
    rw [Finset.disjoint_left]
    intro k hi hj
    rw [FlagSet.mem_toFinset] at hi hj
    rcases Nat.lt_or_gt_of_ne (Fin.val_ne_of_ne ne) with lt | lt
    · exact this i j i.2 j.2 lt (FlagSet.meets_iff.2 ⟨k, hi, hj⟩)
    · exact this j i j.2 i.2 lt (FlagSet.meets_iff.2 ⟨k, hj, hi⟩)
  have := card_le_card_of_covers (r := fun i : Fin found.length => found[i].bits.toFinset)
    (o := fun j : Fin l.length => l[j].bits.toFinset) ?nonempty disjoint ?covers ?le
  · simpa using this
  case nonempty =>
    intro i
    obtain ⟨k, hk⟩ := exists_mem_bits (List.getElem_mem i.2)
    exact ⟨k, FlagSet.mem_toFinset.2 hk⟩
  case covers =>
    intro i k hk
    have hk : k ∈ Privilege.bitsOf l := by
      rw [covers, ← h.bitsOf_rest, Privilege.mem_bitsOf]
      exact ⟨found[i], List.getElem_mem i.2, FlagSet.mem_toFinset.1 hk⟩
    obtain ⟨q, hq, hk⟩ := Privilege.mem_bitsOf.1 hk
    obtain ⟨j, hj, rfl⟩ := List.getElem_of_mem hq
    exact ⟨⟨j, hj⟩, FlagSet.mem_toFinset.2 hk⟩
  case le =>
    intro i j k hi hj
    rw [FlagSet.card_toFinset, FlagSet.card_toFinset]
    rw [FlagSet.mem_toFinset] at hi hj
    have ⟨registered, sub⟩ := known l[j] (List.getElem_mem j.2)
    exact card_le_of_mem_rest apart (List.getElem_mem i.2) hi
      (h.mem_candidates registered sub hj part) sub hj

end

theorem privilegesFor_compact (calls : List Registration) (bits : PrivilegeBits) :
    let r := after calls
    let found := r.privilegesFor bits
    (∀ p ∈ found, ∀ q ∈ r.toList, q.bits ⊆ bits → p.bits ⊆ q.bits → p.bits = q.bits) ∧
    (∀ p ∈ found, ∀ q ∈ found, p.bits ⊆ q.bits → p = q) ∧
    (found.Pairwise (fun p q => ¬p.bits.meets q.bits) →
      ∀ l : List Privilege, (∀ p ∈ l, p ∈ r.toList ∧ p.bits ⊆ bits) →
        Privilege.bitsOf l = bits ∩ r.allBits → found.length ≤ l.length) := by
  have ledger := ledger_after calls
  intro r found
  have hf : found = _ := ledger.privilegesFor_eq
  split at hf
  case isTrue sub =>
    rw [hf]
    refine ⟨fun p hp q known _ larger => ?_, by simp, fun _ l _ covers => ?_⟩
    · obtain rfl := List.mem_singleton.1 hp
      refine FlagSet.ext fun i => ⟨FlagSet.subset_iff.1 larger i, fun hi => ?_⟩
      exact ledger.allBits_eq ▸ ledger.mem_allBits known hi
    · refine List.length_pos_iff.2 fun none => ledger.allBits_ne_empty ?_
      refine FlagSet.eq_empty_iff.2 fun i hi => ?_
      have : i ∈ Privilege.bitsOf l :=
        covers ▸ FlagSet.mem_inter.2 ⟨FlagSet.subset_iff.1 sub i hi, hi⟩
      simp [none, Privilege.mem_bitsOf] at this
  case isFalse part =>
    rw [hf]
    refine ⟨fun p hp q => ledger.bits_eq_of_subset part hp, fun p hp q hq larger => ?_,
      fun apart l => length_rest_le apart ledger part⟩
    have ⟨known, _, _, sub⟩ := mem_rest hq
    exact eq_of_bits_eq hp hq (ledger.bits_eq_of_subset part hp known sub larger)

def authoring : List Registration := [⟨"app:author", false, ["jcr:read", "jcr:write"]⟩]

theorem author_and_reader_are_fewest :
    let found := (after authoring).privilegesFor (.ofNat 0x3f)
    found.map (·.name) = ["app:author", "jcr:readAccessControl"] ∧
    found.Pairwise (fun p q => ¬p.bits.meets q.bits) ∧
    ∀ l : List Privilege,
      (∀ p ∈ l, p ∈ (after authoring).toList ∧ p.bits ⊆ .ofNat 0x3f) →
      Privilege.bitsOf l = .ofNat 0x3f ∩ (after authoring).allBits → 2 ≤ l.length := by
  have ⟨names, apart, two⟩ :
      ((after authoring).privilegesFor (.ofNat 0x3f)).map (·.name) =
        ["app:author", "jcr:readAccessControl"] ∧
      ((after authoring).privilegesFor (.ofNat 0x3f)).Pairwise (fun p q => ¬p.bits.meets q.bits) ∧
      ((after authoring).privilegesFor (.ofNat 0x3f)).length = 2 := by decide +kernel
  refine ⟨names, apart, fun l known covers => ?_⟩
  exact two ▸ (privilegesFor_compact authoring (.ofNat 0x3f)).2.2 apart l known covers

-- Two aggregates of three bits each, which between them carry what the aggregate of four carries.
def overlapping : List Registration := [
  ⟨"app:author", false, ["jcr:read", "jcr:modifyProperties", "jcr:addChildNodes"]⟩,
  ⟨"app:curator", false, ["jcr:removeNode", "jcr:removeChildNodes", "jcr:readAccessControl"]⟩]

theorem privilegesFor_not_smallest :
    ¬∀ (calls : List Registration) (bits : PrivilegeBits) (l : List Privilege),
      (∀ p ∈ l, p ∈ (after calls).toList ∧ p.bits ⊆ bits) →
      Privilege.bitsOf l = bits ∩ (after calls).allBits →
      ((after calls).privilegesFor bits).length ≤ l.length := by
  intro h
  have ⟨known, covers, three⟩ :
      (∀ p ∈ registered overlapping, p ∈ (after overlapping).toList ∧ p.bits ⊆ .ofNat 0x3f) ∧
      Privilege.bitsOf (registered overlapping) = .ofNat 0x3f ∩ (after overlapping).allBits ∧
      (registered overlapping).length <
        ((after overlapping).privilegesFor (.ofNat 0x3f)).length := by decide +kernel
  exact absurd (h overlapping (.ofNat 0x3f) _ known covers) (Nat.not_le_of_lt three)

end Registry

end PolicyTree
