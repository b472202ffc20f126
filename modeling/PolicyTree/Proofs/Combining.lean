import Mathlib.Tactic.Common
import PolicyTree.Proofs.Comparison

namespace PolicyTree

variable {counts : Entry → Bool} {isAllow isPolicyItem : Bool} {A PA : PrivilegeBits}
  {xs ys : List Entry} {p : Nat}

theorem FlagSet.single_subset_iff {w b : Nat} {a : FlagSet w} (hb : b < w) :
    single b ⊆ a ↔ b ∈ a := by
  rw [subset_iff]
  constructor
  case mp  => exact fun h => h b (mem_single.2 ⟨rfl, hb⟩)
  case mpr => exact fun h i hi => (mem_single.1 hi).1 ▸ h

-- Later entries decide what no entry before them has decided.
theorem decided_append : decided counts isAllow (xs ++ ys) =
    decided counts isAllow xs ∪ (decided counts isAllow ys \ decided counts (!isAllow) xs) := by
  have append (b : Nat) : decider counts b (xs ++ ys) =
      (decider counts b xs).or (decider counts b ys) := by
    simp only [decider, List.find?_append]
  ext b
  rw [FlagSet.mem_union, FlagSet.mem_sdiff]
  simp only [mem_decided, append]
  cases decider counts b xs
  case none   => simp
  case some d => cases hd : d.isAllow <;> cases isAllow <;> simp [hd]

-- What permissions hang on.

theorem meanings_needed_single :
    ∀ isPolicyItem, ∀ m ∈ meanings isPolicyItem, ∃ b ∈ List.range 12, m.1 = .single b := by
  decide

-- A permission hangs on one privilege, unless it is to remove a node. One that there is not hangs
-- on a privilege that there is not.
theorem exists_privilege_of_permission (other : p ∉ Permissions.removeNode ∨ isPolicyItem) :
    ∃ b, ∀ A PA isAllow, p ∈ permissionsFor A PA isAllow isPolicyItem ↔ b ∈ A := by
  have ordinary (A PA : PrivilegeBits) (isAllow : Bool) :
      p ∈ permissionsFor A PA isAllow isPolicyItem ↔
        ∃ m ∈ meanings isPolicyItem, m.1 ⊆ A ∧ p ∈ m.2 := by
    rw [mem_permissionsFor, or_iff_left]
    rintro ⟨hi, _, hp⟩
    exact other.elim (· hp) (by simp [hi])
  by_cases h : ∃ m ∈ meanings isPolicyItem, p ∈ m.2
  case pos =>
    obtain ⟨m, hm, hp⟩ := h
    obtain ⟨b, hb, needed⟩ := meanings_needed_single isPolicyItem m hm
    have hb : b < 64 := Nat.lt_trans (List.mem_range.1 hb) (by decide)
    refine ⟨b, fun A PA isAllow => ?_⟩
    rw [ordinary, ← FlagSet.single_subset_iff hb, ← needed]
    constructor
    case mpr => exact fun hA => ⟨m, hm, hA, hp⟩
    case mp  =>
      rintro ⟨m', hm', hA, hp'⟩
      exact meanings_held_injective _ m hm m' hm' (FlagSet.meets_iff.2 ⟨p, hp, hp'⟩) ▸ hA
  case neg =>
    refine ⟨64, fun A PA isAllow => ?_⟩
    rw [ordinary]
    constructor
    case mp  => exact fun ⟨m, hm, _, hp⟩ => absurd ⟨m, hm, hp⟩ h
    case mpr => exact fun hb => absurd (FlagSet.lt_of_mem hb) (Nat.lt_irrefl 64)

-- To remove a node hangs on a privilege on the node and one on its parent.
theorem mem_permissionsFor_removal (removal : p ∈ Permissions.removeNode) :
    p ∈ permissionsFor A PA isAllow false ↔
      if isAllow then 3 ∈ A ∧ 4 ∈ PA else 3 ∈ A ∨ 4 ∈ PA := by
  have onNode : PrivilegeBits.removeNode ⊆ A ↔ 3 ∈ A := FlagSet.single_subset_iff (by decide)
  have onParent : PrivilegeBits.removeChildNodes ⊆ PA ↔ 4 ∈ PA :=
    FlagSet.single_subset_iff (by decide)
  have alone : ¬∃ m ∈ meanings false, m.1 ⊆ A ∧ p ∈ m.2 := by
    rintro ⟨m, hm, _, hp⟩
    have := meanings_held_not_removal m hm
    exact absurd (FlagSet.meets_iff.2 ⟨p, hp, removal⟩) (by simp [this])
  rw [mem_permissionsFor, or_iff_right alone]
  simp only [true_and, removal, and_true, decidesRemoval_iff, onNode, onParent]

section

variable {i : Item}

theorem mem_combine_iff (other : p ∉ Permissions.removeNode ∨ i.isPolicyItem) :
    (p ∈ ((evaluate xs i).combine (evaluate ys i)).allows ↔ p ∈ (evaluate (xs ++ ys) i).allows) ∧
    (p ∈ ((evaluate xs i).combine (evaluate ys i)).denies ↔
      p ∈ (evaluate (xs ++ ys) i).denies) := by
  obtain ⟨b, hb⟩ := exists_privilege_of_permission other
  simp only [evaluate_eq, settled, Decision.combine, FlagSet.mem_union, FlagSet.mem_sdiff, hb,
    decided_append, Bool.not_true, Bool.not_false, and_self]

-- A part knows of its own privileges alone. Where one allows on the node and the other on the
-- parent, neither allows the removal; and where the first allows on the node alone, the second may
-- deny there what the list does not.
theorem mem_combine_removal (removal : p ∈ Permissions.removeNode)
    (ordinary : i.isPolicyItem = false) :
    (p ∈ ((evaluate xs i).combine (evaluate ys i)).allows → p ∈ (evaluate (xs ++ ys) i).allows) ∧
    (p ∈ (evaluate (xs ++ ys) i).denies →
      p ∈ ((evaluate xs i).combine (evaluate ys i)).denies) := by
  simp only [evaluate_eq, settled, Decision.combine, ordinary, FlagSet.mem_union,
    FlagSet.mem_sdiff, mem_permissionsFor_removal removal, decided_append, if_true,
    Bool.false_eq_true, if_false, Bool.not_true, Bool.not_false]
  constructor <;> tauto

end

-- The decisions of two parts of a list combine to that of the list: each privilege is decided the
-- same, and so is each permission but for the removal of ordinary nodes. This is allowed by the
-- combination only if it is by the list, and denied by the list only if it is by the combination.
theorem combine_splits_fold (xs ys : List Entry) (i : Item) :
    let c := (evaluate xs i).combine (evaluate ys i)
    let r := evaluate (xs ++ ys) i
    c.allowPrivileges = r.allowPrivileges ∧ c.denyPrivileges = r.denyPrivileges ∧
    (∀ p, p ∉ Permissions.removeNode ∨ i.isPolicyItem →
      (p ∈ c.allows ↔ p ∈ r.allows) ∧ (p ∈ c.denies ↔ p ∈ r.denies)) ∧
    ∀ p ∈ Permissions.removeNode,
      (p ∈ c.allows → p ∈ r.allows) ∧ (p ∈ r.denies → p ∈ c.denies) := by
  intro c r
  have privileges (isAllow : Bool) : decided i.atItem isAllow (xs ++ ys) = _ := decided_append
  refine ⟨?_, ?_, fun p other => mem_combine_iff other, fun p removal => ?_⟩
  · simp only [c, r, evaluate_eq, settled, Decision.combine, privileges, Bool.not_true]
  · simp only [c, r, evaluate_eq, settled, Decision.combine, privileges, Bool.not_false]
  · cases hi : i.isPolicyItem
    case true  =>
      obtain ⟨allows, denies⟩ :
          (p ∈ c.allows ↔ p ∈ r.allows) ∧ (p ∈ c.denies ↔ p ∈ r.denies) :=
        mem_combine_iff (.inr hi)
      exact ⟨allows.1, denies.2⟩
    case false => exact mem_combine_removal removal hi

-- Only together do an entry on a page and one above it let the page be removed.
example :
    let onPage : Entry := ⟨"alice", [.concrete "jcr:removeNode" .removeNode], true, ∅,
      ⟨⟨2⟩, "/site/page"⟩⟩
    let above : Entry := ⟨"alice", [.concrete "jcr:removeChildNodes" .removeChildNodes], true, ∅,
      ⟨⟨1⟩, "/site"⟩⟩
    let page : Item := ⟨"/site/page", ⟨2⟩, false⟩
    (evaluate [onPage, above] page).grants .removeNode ∧
      ¬((evaluate [onPage] page).combine (evaluate [above] page)).grants .removeNode := by
  decide +kernel

end PolicyTree
