import PolicyTree.Proofs.Privilege.Accounts

namespace PolicyTree

namespace Registry

open Privilege (allName)

variable {r : Registry} {p : Privilege} {bits remaining : PrivilegeBits} {i : Nat}
  {candidates customs : List Privilege}

theorem mem_cover (h : p ∈ cover bits remaining candidates) :
    p ∈ candidates ∧ p.bits ⊆ bits := by
  induction candidates generalizing remaining
  case nil => simp [cover] at h
  case cons q candidates hi =>
    unfold cover at h
    split at h
    case isTrue taken =>
      obtain rfl | h := List.mem_cons.1 h
      case inl => exact ⟨List.mem_cons_self, taken.1⟩
      case inr => exact (hi h).imp_left (List.mem_cons_of_mem _)
    case isFalse => exact (hi h).imp_left (List.mem_cons_of_mem _)

-- A bit that a candidate could still add is added, if not by this candidate then by one before it.
theorem exists_mem_cover (hi : i ∈ remaining) (hp : p ∈ candidates) (sub : p.bits ⊆ bits)
    (hip : i ∈ p.bits) : ∃ q ∈ cover bits remaining candidates, i ∈ q.bits := by
  induction candidates generalizing remaining
  case nil => simp at hp
  case cons q candidates ih =>
    unfold cover
    split
    case isTrue =>
      by_cases hiq : i ∈ q.bits
      case pos => exact ⟨q, List.mem_cons_self, hiq⟩
      case neg =>
        have later : p ∈ candidates := (List.mem_cons.1 hp).resolve_left fun h => hiq (h ▸ hip)
        obtain ⟨q', hq', hi'⟩ := ih (FlagSet.mem_sdiff.2 ⟨hi, hiq⟩) later
        exact ⟨q', List.mem_cons_of_mem _ hq', hi'⟩
    case isFalse skipped =>
      have later : p ∈ candidates := by
        refine (List.mem_cons.1 hp).resolve_left fun h => skipped ?_
        subst h
        exact ⟨sub, FlagSet.meets_iff.2 ⟨i, hip, hi⟩⟩
      exact ih hi later

theorem mem_candidates : p ∈ r.candidates ↔ p ∈ r.toList ∧ p.name ≠ allName ∧ p.bits ≠ ∅ := by
  simp [Registry.candidates]

theorem mem_rest (h : p ∈ privilegesFor.rest r bits) :
    p ∈ r.toList ∧ p.name ≠ allName ∧ p.bits ≠ ∅ ∧ p.bits ⊆ bits := by
  have ⟨candidate, sub⟩ := mem_cover (mem_sortOn.1 h)
  have ⟨known, named, carries⟩ := mem_candidates.1 candidate
  exact ⟨known, named, carries, sub⟩

theorem rest_empty : privilegesFor.rest r ∅ = [] := by
  refine List.eq_nil_iff_forall_not_mem.2 fun p hp => ?_
  have ⟨_, _, carries, sub⟩ := mem_rest hp
  exact carries (FlagSet.eq_empty_iff.2 fun i hi => by simpa using FlagSet.subset_iff.1 sub i hi)

namespace Ledger

theorem mem_allBits (h : Ledger customs r) (hp : p ∈ r.toList) (hi : i ∈ p.bits) :
    i ∈ r.allBits := by
  obtain ⟨n, known⟩ := mem_toList_iff.1 hp
  exact h.allBits_eq ▸ FlagSet.subset_iff.1 (h.bits_subset known) i hi

theorem allBits_ne_empty (h : Ledger customs r) : r.allBits ≠ ∅ := by
  intro none
  have read : 0 ∈ (Privilege.concrete Privilege.readName .read).bits := by decide
  have known : Privilege.concrete Privilege.readName .read ∈ r.toList :=
    h.mem_toList.2 (.inl (by decide))
  exact FlagSet.eq_empty_iff.1 none 0 (h.mem_allBits known read)

-- The aggregate of all is no candidate, and every other bit that is registered has an owner that
-- is.
theorem exists_candidate (h : Ledger customs r) (hi : i ∈ r.allBits) (hb : i ∈ bits) :
    ∃ p ∈ r.candidates, i ∈ p.bits ∧ p.bits ⊆ bits := by
  rw [h.allBits_eq_bitsOf, Privilege.mem_bitsOf] at hi
  obtain ⟨p, hp, hi⟩ := hi
  have ⟨known, concrete⟩ := List.mem_filter.1 hp
  obtain ⟨j, _, single⟩ := h.exists_single hp
  refine ⟨p, mem_candidates.2 ⟨known, ?_, ?_⟩, hi, ?_⟩
  · intro named
    have := get_eq_ok_iff.1 ((h.accounts.known p).1 known)
    rw [named, h.all] at this
    simp [← Option.some.inj this, Privilege.isConcrete] at concrete
  · intro none
    simp [none] at hi
  · rw [single, FlagSet.mem_single] at hi
    rw [FlagSet.subset_iff, single]
    intro k hk
    rwa [(FlagSet.mem_single.1 hk).1, ← hi.1]

theorem bitsOf_rest (h : Ledger customs r) :
    Privilege.bitsOf (privilegesFor.rest r bits) = bits ∩ r.allBits := by
  ext i
  rw [Privilege.mem_bitsOf, FlagSet.mem_inter]
  constructor
  case mp =>
    rintro ⟨p, hp, hi⟩
    have ⟨known, _, _, sub⟩ := mem_rest hp
    exact ⟨FlagSet.subset_iff.1 sub i hi, h.mem_allBits known hi⟩
  case mpr =>
    rintro ⟨hb, hi⟩
    obtain ⟨p, candidate, hi, sub⟩ := h.exists_candidate hi hb
    obtain ⟨q, taken, hi⟩ := exists_mem_cover hb candidate sub hi
    exact ⟨q, mem_sortOn.2 taken, hi⟩

theorem privilegesFor_eq (h : Ledger customs r) : r.privilegesFor bits =
    if r.allBits ⊆ bits then [.allWith (concretes customs)] else privilegesFor.rest r bits := by
  rw [privilegesFor, h.all, h.allBits_eq]
  split
  case isTrue none =>
    subst none
    have : ¬(Privilege.allWith (concretes customs)).bits ⊆ ∅ := by
      intro sub
      refine h.allBits_ne_empty (h.allBits_eq ▸ FlagSet.eq_empty_iff.2 fun i hi => ?_)
      simpa using FlagSet.subset_iff.1 sub i hi
    rw [if_neg this, rest_empty]
  case isFalse => rfl

end Ledger

theorem privilegesFor_exact (calls : List Registration) (bits : PrivilegeBits) :
    Privilege.bitsOf ((after calls).privilegesFor bits) = bits ∩ (after calls).allBits ∧
    (∀ p ∈ (after calls).privilegesFor bits, ¬p.isAbstract ∧ p.bits ⊆ bits) ∧
    ∃ all, (after calls).get allName = .ok all ∧
      ((after calls).privilegesFor bits = [all] ↔ (after calls).allBits ⊆ bits) := by
  have ledger := ledger_after calls
  rw [ledger.privilegesFor_eq]
  split
  case isTrue sub =>
    refine ⟨?_, ?_, _, get_eq_ok_iff.2 ledger.all, by simp [sub]⟩
    · ext i
      have := FlagSet.subset_iff.1 sub i
      simpa [Privilege.mem_bitsOf, ← ledger.allBits_eq] using this
    · intro p hp
      obtain rfl := List.mem_singleton.1 hp
      exact ⟨by simp [Privilege.allWith, Privilege.all], ledger.allBits_eq ▸ sub⟩
  case isFalse sub =>
    refine ⟨ledger.bitsOf_rest, ?_, _, get_eq_ok_iff.2 ledger.all, iff_of_false ?_ sub⟩
    · intro p hp
      obtain ⟨known, -, carries, sub⟩ := mem_rest hp
      exact ⟨fun isAbstract => carries (ledger.accounts.abstract p known isAbstract).1, sub⟩
    · intro only
      have := mem_rest (only ▸ List.mem_singleton_self _)
      exact this.2.1 rfl

end Registry

end PolicyTree
