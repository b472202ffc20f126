namespace PolicyTree

structure FlagSet (w : Nat) where
  bits : BitVec w
deriving DecidableEq, Inhabited, Repr

namespace FlagSet

variable {w : Nat} {a b c : FlagSet w} {i : Nat}

def ofNat (n : Nat) : FlagSet w := ⟨BitVec.ofNat w n⟩

def toNat (a : FlagSet w) : Nat := a.bits.toNat

def single (i : Nat) : FlagSet w := ⟨BitVec.twoPow w i⟩

-- Every flag of the word, named or not.
def full : FlagSet w := ⟨BitVec.allOnes w⟩

instance : EmptyCollection (FlagSet w) := ⟨⟨0#w⟩⟩

instance : Union (FlagSet w) := ⟨fun a b => ⟨a.bits ||| b.bits⟩⟩

instance : Inter (FlagSet w) := ⟨fun a b => ⟨a.bits &&& b.bits⟩⟩

instance : SDiff (FlagSet w) := ⟨fun a b => ⟨a.bits &&& ~~~b.bits⟩⟩

instance : Membership Nat (FlagSet w) := ⟨fun a i => a.bits.getLsbD i = true⟩

instance : HasSubset (FlagSet w) := ⟨fun a b => a.bits &&& b.bits = a.bits⟩

instance : Decidable (i ∈ a) := inferInstanceAs (Decidable (a.bits.getLsbD i = true))

instance : Decidable (a ⊆ b) := inferInstanceAs (Decidable (a.bits &&& b.bits = a.bits))

def meets (a b : FlagSet w) : Bool := a ∩ b != ∅

def unions (sets : List (FlagSet w)) : FlagSet w := sets.foldl (· ∪ ·) ∅

def card (a : FlagSet w) : Nat := (List.range w).countP (· ∈ a)

-- Every operation in terms of members.

theorem mem_def : i ∈ a ↔ a.bits.getLsbD i = true := .rfl

@[ext] theorem ext (h : ∀ i, i ∈ a ↔ i ∈ b) : a = b := by
  cases a; cases b
  congr 1
  exact BitVec.eq_of_getLsbD_eq fun i _ => Bool.eq_iff_iff.2 (h i)

theorem lt_of_mem (h : i ∈ a) : i < w :=
  BitVec.lt_of_getLsbD h

@[simp] theorem not_mem_empty : i ∉ (∅ : FlagSet w) := by
  simp [mem_def, EmptyCollection.emptyCollection]

@[simp] theorem mem_full : i ∈ (full : FlagSet w) ↔ i < w := by
  simp [mem_def, full]

@[simp] theorem mem_single {j : Nat} : i ∈ (single j : FlagSet w) ↔ i = j ∧ i < w := by
  simp [mem_def, single, BitVec.getLsbD_twoPow]
  omega

@[simp] theorem mem_union : i ∈ a ∪ b ↔ i ∈ a ∨ i ∈ b := by
  simp [mem_def, Union.union]

@[simp] theorem mem_inter : i ∈ a ∩ b ↔ i ∈ a ∧ i ∈ b := by
  simp [mem_def, Inter.inter]

@[simp] theorem mem_sdiff : i ∈ a \ b ↔ i ∈ a ∧ i ∉ b := by
  simp only [mem_def, SDiff.sdiff, BitVec.getLsbD_and, BitVec.getLsbD_not, Bool.and_eq_true]
  by_cases h : i < w
  · simp [h]
  · simp [h, BitVec.getLsbD_of_ge _ _ (Nat.le_of_not_lt h)]

theorem subset_iff : a ⊆ b ↔ ∀ i, i ∈ a → i ∈ b := by
  have : a ⊆ b ↔ a ∩ b = a := by
    cases a; cases b
    simp [HasSubset.Subset, Inter.inter]
  rw [this]
  exact ⟨fun h i hi => (mem_inter.1 (h ▸ hi)).2, fun h => ext fun i => by simpa using h i⟩

theorem eq_empty_iff : a = ∅ ↔ ∀ i, i ∉ a :=
  ⟨fun h => by simp [h], fun h => ext fun i => by simp [h i]⟩

theorem meets_iff : a.meets b ↔ ∃ i, i ∈ a ∧ i ∈ b := by
  simp [meets, eq_empty_iff]

theorem mem_foldl_union {sets : List (FlagSet w)} :
    i ∈ sets.foldl (· ∪ ·) a ↔ i ∈ a ∨ ∃ s ∈ sets, i ∈ s := by
  induction sets generalizing a with
  | nil => simp
  | cons s sets ih => simp [ih, or_assoc]

@[simp] theorem mem_unions {sets : List (FlagSet w)} : i ∈ unions sets ↔ ∃ s ∈ sets, i ∈ s := by
  simp [unions, mem_foldl_union]

end FlagSet

end PolicyTree
