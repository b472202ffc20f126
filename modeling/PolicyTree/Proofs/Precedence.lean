import Mathlib.Data.List.Induction
import Mathlib.Tactic.Common
import PolicyTree.Decision

namespace PolicyTree

-- The permissions that privileges stand for.

namespace FlagSet

variable {w : Nat} {a b c : FlagSet w}

theorem subset_trans (h₁ : a ⊆ b) (h₂ : b ⊆ c) : a ⊆ c :=
  subset_iff.2 fun i hi => subset_iff.1 h₂ i (subset_iff.1 h₁ i hi)

theorem exists_mem_of_ne_empty (h : a ≠ ∅) : ∃ i, i ∈ a := by
  by_contra hn
  exact h (eq_empty_iff.2 fun i hi => hn ⟨i, hi⟩)

def Disjoint (a b : FlagSet w) : Prop :=
  ∀ i ∈ a, i ∉ b

theorem Disjoint.symm (h : a.Disjoint b) : b.Disjoint a :=
  fun i hb ha => h i ha hb

theorem Disjoint.sdiff_eq (h : a.Disjoint b) : a \ b = a := by
  ext i
  simpa using h i

theorem Disjoint.subset (h : a.Disjoint b) (hs : c ⊆ b) : a.Disjoint c :=
  fun i ha hc => h i ha (subset_iff.1 hs i hc)

theorem Disjoint.not_subset (h : a.Disjoint b) (ha : c ⊆ a) (hc : c ≠ ∅) : ¬c ⊆ b := by
  intro hb
  have ⟨i, hi⟩ := exists_mem_of_ne_empty hc
  exact h i (subset_iff.1 ha i hi) (subset_iff.1 hb i hi)

theorem union_eq_of_subset (h : a ⊆ b) : a ∪ b = b := by
  ext i
  simpa using subset_iff.1 h i

end FlagSet

-- The privileges that stand for permissions by themselves, each with what it stands for. Removing a
-- node is not among them, since that takes two levels.
def meanings (isPolicyItem : Bool) : List (PrivilegeBits × Permissions) :=
  if isPolicyItem then [
    (.readPolicy, .read ∪ .readPolicy),
    (.modifyPolicy, editing)]
  else [
    (.read, .read),
    (.modifyProperties, .setProperty ∪ .removeProperty),
    (.addChildNodes, .addNode),
    (.readPolicy, .readPolicy),
    (.modifyPolicy, .modifyPolicy),
    (.manageNodeTypes, .manageNodeTypes),
    (.manageVersions, .manageVersions),
    (.manageLocks, .manageLocks),
    (.manageLifecycle, .manageLifecycle),
    (.manageRetention, .manageRetention)]

theorem meanings_needed_ne_empty :
    ∀ isPolicyItem, ∀ m ∈ meanings isPolicyItem, m.1 ≠ ∅ := by
  decide

theorem meanings_held_injective :
    ∀ isPolicyItem, ∀ m ∈ meanings isPolicyItem, ∀ m' ∈ meanings isPolicyItem,
      m.2.meets m'.2 → m = m' := by
  decide

theorem meanings_held_not_removal :
    ∀ m ∈ meanings false, m.2.meets Permissions.removeNode = false := by
  decide

variable {A D PA PD : PrivilegeBits} {isAllow isPolicyItem : Bool} {p : Nat}

theorem mem_permissionsIf {needed : PrivilegeBits} {held : Permissions} :
    p ∈ permissionsIf A needed held ↔ needed ⊆ A ∧ p ∈ held := by
  unfold permissionsIf
  split <;> simp [*]

theorem mem_permissionsFor : p ∈ permissionsFor A PA isAllow isPolicyItem ↔
    (∃ m ∈ meanings isPolicyItem, m.1 ⊆ A ∧ p ∈ m.2) ∨
      (isPolicyItem = false ∧ decidesRemoval A PA isAllow ∧ p ∈ Permissions.removeNode) := by
  cases isPolicyItem
  case true => simp [permissionsFor, meanings, mem_permissionsIf]
  case false =>
    have : p ∈ (if decidesRemoval A PA isAllow then Permissions.removeNode else ∅) ↔
        decidesRemoval A PA isAllow ∧ p ∈ Permissions.removeNode := by
      split <;> simp [*]
    simp only [permissionsFor, meanings, Bool.false_eq_true, if_false, FlagSet.mem_unions,
      List.mem_cons, List.not_mem_nil, or_false, exists_eq_or_imp, exists_eq_left,
      mem_permissionsIf, this, true_and]
    generalize (decidesRemoval A PA isAllow ∧ p ∈ Permissions.removeNode) = removal
    by_cases removal <;> simp [*]

theorem decidesRemoval_iff : decidesRemoval A PA isAllow ↔
    if isAllow then PrivilegeBits.removeNode ⊆ A ∧ PrivilegeBits.removeChildNodes ⊆ PA
    else PrivilegeBits.removeNode ⊆ A ∨ PrivilegeBits.removeChildNodes ⊆ PA := by
  cases isAllow <;> simp [decidesRemoval]

theorem permissionsFor_mono (h : A ⊆ D) (hp : PA ⊆ PD) :
    permissionsFor A PA isAllow isPolicyItem ⊆ permissionsFor D PD isAllow isPolicyItem := by
  refine FlagSet.subset_iff.2 fun i hi => ?_
  rcases mem_permissionsFor.1 hi with ⟨m, hm, hA, hi⟩ | ⟨hn, hr, hi⟩
  · exact mem_permissionsFor.2 (.inl ⟨m, hm, FlagSet.subset_trans hA h, hi⟩)
  · refine mem_permissionsFor.2 (.inr ⟨hn, ?_, hi⟩)
    rw [decidesRemoval_iff] at hr ⊢
    cases isAllow
    case false => exact hr.imp (FlagSet.subset_trans · h) (FlagSet.subset_trans · hp)
    case true  => exact hr.imp (FlagSet.subset_trans · h) (FlagSet.subset_trans · hp)

-- To deny the removal of a node takes either of two privileges, to allow it both of them. So what
-- is allowed on one level cannot be denied through the other.
theorem permissionsFor_disjoint (h : A.Disjoint D) (hp : PA.Disjoint PD) :
    (permissionsFor A PA true isPolicyItem).Disjoint
      (permissionsFor D PD false isPolicyItem) := by
  intro i ha hd
  rcases mem_permissionsFor.1 ha with ⟨m, hm, hA, hi⟩ | ⟨hn, hr, hi⟩ <;>
    rcases mem_permissionsFor.1 hd with ⟨m', hm', hD, hi'⟩ | ⟨hn', hr', hi'⟩
  · obtain rfl := meanings_held_injective _ m hm m' hm' (FlagSet.meets_iff.2 ⟨i, hi, hi'⟩)
    exact h.not_subset hA (meanings_needed_ne_empty _ m hm) hD
  · subst hn'
    have := meanings_held_not_removal m hm
    exact absurd (FlagSet.meets_iff.2 ⟨i, hi, hi'⟩) (by simp [this])
  · subst hn
    have := meanings_held_not_removal m' hm'
    exact absurd (FlagSet.meets_iff.2 ⟨i, hi', hi⟩) (by simp [this])
  · have ⟨hA, hPA⟩ := decidesRemoval_iff.1 hr
    cases decidesRemoval_iff.1 hr'
    case inl hD  => exact h.not_subset hA (by decide) hD
    case inr hPD => exact hp.not_subset hPA (by decide) hPD

-- The entries that decide.

-- The first of the entries that counts and carries a privilege.
def decider (counts : Entry → Bool) (b : Nat) (entries : List Entry) : Option Entry :=
  entries.find? fun e => counts e && b ∈ e.bits

def decided (counts : Entry → Bool) (isAllow : Bool) (entries : List Entry) : PrivilegeBits :=
  .unions <| ((List.range 64).filter fun b =>
    (decider counts b entries).any (·.isAllow = isAllow)).map .single

-- The decision when both levels are settled before permissions are derived.
def settled (entries : List Entry) (i : Item) : Decision where
  allows          := permissionsFor (decided i.atItem true entries)
    (decided i.atParent true entries) true i.isPolicyItem
  denies          := permissionsFor (decided i.atItem false entries)
    (decided i.atParent false entries) false i.isPolicyItem
  allowPrivileges := decided i.atItem true entries
  denyPrivileges  := decided i.atItem false entries

section

variable {counts : Entry → Bool} {b : Nat} {e : Entry} {entries : List Entry}

theorem decider_counts (h : decider counts b entries = some e) : counts e ∧ b ∈ e.bits := by
  simpa using List.find?_some h

theorem mem_decided : b ∈ decided counts isAllow entries ↔
    ∃ e, decider counts b entries = some e ∧ e.isAllow = isAllow := by
  simp only [decided, FlagSet.mem_unions, List.mem_map, List.mem_filter, List.mem_range,
    Option.any_eq_true, decide_eq_true_eq]
  constructor
  case mp =>
    rintro ⟨_, ⟨c, ⟨_, e, he, ha⟩, rfl⟩, hb⟩
    obtain ⟨rfl, _⟩ := FlagSet.mem_single.1 hb
    exact ⟨e, he, ha⟩
  case mpr =>
    rintro ⟨e, he, ha⟩
    have hb := FlagSet.lt_of_mem (decider_counts he).2
    exact ⟨.single b, ⟨b, ⟨hb, e, he, ha⟩, rfl⟩, by simp [hb]⟩

theorem decided_disjoint :
    (decided counts true entries).Disjoint (decided counts false entries) := by
  intro b ha hd
  have ⟨e, he, ha⟩ := mem_decided.1 ha
  have ⟨e', he', hd⟩ := mem_decided.1 hd
  simp_all

@[simp] theorem decided_nil : decided counts isAllow [] = ∅ := by
  ext b
  simp [mem_decided, decider]

-- To leave entries out is not to count them.
theorem decided_filter {keep : Entry → Bool} : decided counts isAllow (entries.filter keep) =
    decided (fun e => keep e && counts e) isAllow entries := by
  ext b
  simp [mem_decided, decider, List.find?_filter, Bool.and_assoc]

-- An entry at the end decides what no entry before it has decided.
theorem decided_concat : decided counts isAllow (entries ++ [e]) =
    if counts e ∧ e.isAllow = isAllow then
      decided counts isAllow entries ∪ (e.bits \ decided counts (!isAllow) entries)
    else decided counts isAllow entries := by
  have concat (b : Nat) : decider counts b (entries ++ [e]) =
      (decider counts b entries).or (if counts e && b ∈ e.bits then some e else none) := by
    simp [decider, List.find?_append, List.find?_singleton]
  have union (b : Nat) : b ∈ decided counts isAllow entries ∪
      (e.bits \ decided counts (!isAllow) entries) ↔
      b ∈ decided counts isAllow entries ∨ (decider counts b entries = none ∧ b ∈ e.bits) := by
    cases hb : decider counts b entries
    case none   => simp [mem_decided, hb]
    case some d => cases hd : d.isAllow <;> cases isAllow <;> simp [mem_decided, hb, hd]
  ext b
  by_cases h : counts e ∧ e.isAllow = isAllow
  case pos =>
    rw [if_pos h, union, mem_decided, mem_decided, concat]
    cases hb : decider counts b entries <;> simp [h]
  case neg =>
    rw [if_neg h, mem_decided, mem_decided, concat]
    cases hb : decider counts b entries <;> simp
    grind

theorem decided_singleton : decided counts isAllow [e] =
    if counts e ∧ e.isAllow = isAllow then e.bits else ∅ := by
  rw [← List.nil_append [e], decided_concat, decided_nil, decided_nil]
  split
  case isTrue  => ext b; simp
  case isFalse => rfl

-- A privilege that some entry carries which counts is decided, one way or the other.
theorem mem_decided_of_not (he : e ∈ entries) (hc : counts e) (hb : b ∈ e.bits)
    (other : b ∉ decided counts (!isAllow) entries) : b ∈ decided counts isAllow entries := by
  have found : (decider counts b entries).isSome := List.find?_isSome.2 ⟨e, he, by simp [hc, hb]⟩
  obtain ⟨d, hd⟩ := Option.isSome_iff_exists.1 found
  refine mem_decided.2 ⟨d, hd, ?_⟩
  by_contra hn
  exact other (mem_decided.2 ⟨d, hd, Bool.eq_not_of_ne hn⟩)

theorem decided_subset_concat :
    decided counts isAllow entries ⊆ decided counts isAllow (entries ++ [e]) := by
  rw [decided_concat]
  split <;> simp +contextual [FlagSet.subset_iff]

end

namespace Tally

-- What a tally has after the entries in `items` were weighed for the item and those in `parents`
-- for its parent. The permissions may lag behind the privileges, but they never run ahead.
structure Settles (i : Item) (items parents : List Entry) (t : Tally) : Prop where
  allowPrivileges : t.decision.allowPrivileges = decided i.atItem true items
  denyPrivileges  : t.decision.denyPrivileges = decided i.atItem false items
  parentAllows    : t.parentAllows = decided i.atParent true parents
  parentDenies    : t.parentDenies = decided i.atParent false parents
  allows          : t.decision.allows ⊆
    permissionsFor t.decision.allowPrivileges t.parentAllows true i.isPolicyItem
  denies          : t.decision.denies ⊆
    permissionsFor t.decision.denyPrivileges t.parentDenies false i.isPolicyItem

variable {i : Item} {items parents : List Entry} {t : Tally}

theorem Settles.zero : Settles i [] [] .zero where
  allowPrivileges := by simp [Tally.zero, Decision.none]
  denyPrivileges  := by simp [Tally.zero, Decision.none]
  parentAllows    := by simp [Tally.zero]
  parentDenies    := by simp [Tally.zero]
  allows          := by simp [Tally.zero, Decision.none, FlagSet.subset_iff]
  denies          := by simp [Tally.zero, Decision.none, FlagSet.subset_iff]

theorem Settles.weighAtParent (h : Settles i items parents t) (e : Entry) :
    Settles i items (parents ++ [e]) (if i.atParent e then t.weighAtParent e else t) := by
  have keep {isAllow : Bool} {needed : PrivilegeBits} :
      permissionsFor needed (decided i.atParent isAllow parents) isAllow i.isPolicyItem ⊆
        permissionsFor needed (decided i.atParent isAllow (parents ++ [e])) isAllow
          i.isPolicyItem :=
    permissionsFor_mono (FlagSet.subset_iff.2 fun _ => id) decided_subset_concat
  have step {t' : Tally} (hd : t'.decision = t.decision)
      (ha : t'.parentAllows = decided i.atParent true (parents ++ [e]))
      (hn : t'.parentDenies = decided i.atParent false (parents ++ [e])) :
      Settles i items (parents ++ [e]) t' := by
    refine ⟨hd ▸ h.allowPrivileges, hd ▸ h.denyPrivileges, ha, hn, ?_, ?_⟩
    · exact hd ▸ ha ▸ FlagSet.subset_trans h.allows (h.parentAllows ▸ keep)
    · exact hd ▸ hn ▸ FlagSet.subset_trans h.denies (h.parentDenies ▸ keep)
  by_cases hp : i.atParent e <;> cases he : e.isAllow
  all_goals
    apply step <;>
      simp [Tally.weighAtParent, decided_concat, hp, he, h.parentAllows, h.parentDenies]

theorem Settles.weighAtItem (h : Settles i items parents t) (e : Entry) :
    Settles i (items ++ [e]) parents
      (if i.atItem e then t.weighAtItem i.isPolicyItem e else t) := by
  have sub {a b c d : Permissions} (h₁ : a ⊆ c) (h₂ : b ⊆ c) : a ∪ (b \ d) ⊆ c := by
    rw [FlagSet.subset_iff] at *
    intro p hp
    rcases FlagSet.mem_union.1 hp with hp | hp
    · exact h₁ p hp
    · exact h₂ p (FlagSet.mem_sdiff.1 hp).1
  have refl (a : Permissions) : a ⊆ a := FlagSet.subset_iff.2 fun _ => id
  have grow (a b : PrivilegeBits) : a ⊆ a ∪ b := FlagSet.subset_iff.2 fun p hp => by simp [hp]
  have same (a : PrivilegeBits) : a ⊆ a := FlagSet.subset_iff.2 fun _ => id
  by_cases hi : i.atItem e
  case neg =>
    rw [if_neg hi]
    refine ⟨?_, ?_, h.parentAllows, h.parentDenies, h.allows, h.denies⟩
    · simp [decided_concat, hi, h.allowPrivileges]
    · simp [decided_concat, hi, h.denyPrivileges]
  case pos =>
    rw [if_pos hi]
    cases he : e.isAllow
    case true =>
      simp only [Tally.weighAtItem, he, if_true, Decision.deriveAllows]
      refine ⟨?_, ?_, h.parentAllows, h.parentDenies, ?_, h.denies⟩
      · simp [decided_concat, hi, he, h.allowPrivileges, h.denyPrivileges]
      · simp [decided_concat, he, h.denyPrivileges]
      · exact sub (FlagSet.subset_trans h.allows (permissionsFor_mono (grow ..) (same _))) (refl _)
    case false =>
      simp only [Tally.weighAtItem, he, Bool.false_eq_true, if_false, Decision.deriveDenies]
      refine ⟨?_, ?_, h.parentAllows, h.parentDenies, h.allows, ?_⟩
      · simp [decided_concat, he, h.allowPrivileges]
      · simp [decided_concat, hi, he, h.allowPrivileges, h.denyPrivileges]
      · exact sub (FlagSet.subset_trans h.denies (permissionsFor_mono (grow ..) (same _))) (refl _)

theorem settles_foldl (i : Item) (entries : List Entry) :
    Settles i entries entries (entries.foldl (weigh i) zero) := by
  induction entries using List.reverseRecOn
  case nil => exact .zero
  case append_singleton entries e hi =>
    rw [List.foldl_append, List.foldl_cons, List.foldl_nil, weigh]
    exact (hi.weighAtParent e).weighAtItem e

end Tally

theorem evaluate_eq (entries : List Entry) (i : Item) : evaluate entries i = settled entries i := by
  have h := Tally.settles_foldl i entries
  set t := entries.foldl (Tally.weigh i) .zero
  have item : (decided i.atItem true entries).Disjoint (decided i.atItem false entries) :=
    decided_disjoint
  have parent : (decided i.atParent true entries).Disjoint
      (decided i.atParent false entries) :=
    decided_disjoint
  have disjoint : (permissionsFor _ _ true i.isPolicyItem).Disjoint _ :=
    permissionsFor_disjoint item parent
  have hallows := h.allows
  have hdenies := h.denies
  rw [h.allowPrivileges, h.parentAllows] at hallows
  rw [h.denyPrivileges, h.parentDenies] at hdenies
  have unfolded : evaluate entries i = (t.decision.deriveAllows t.parentAllows
    i.isPolicyItem).deriveDenies t.parentDenies i.isPolicyItem := rfl
  simp only [unfolded, settled, Decision.deriveAllows, Decision.deriveDenies, h.allowPrivileges,
    h.denyPrivileges, h.parentAllows, h.parentDenies]
  rw [(disjoint.subset hdenies).sdiff_eq, FlagSet.union_eq_of_subset hallows,
    disjoint.symm.sdiff_eq, FlagSet.union_eq_of_subset hdenies]

-- A decision is that of two phases: each privilege goes to the first entry that carries it, on the
-- level of the item and on that of its parent, and then the permissions are read off both levels.
-- Nothing is both allowed and denied.
theorem evaluate_first_entry_decides (entries : List Entry) (i : Item) :
    let d := evaluate entries i
    (∀ b, b ∈ d.allowPrivileges ↔
      ∃ e, entries.find? (fun e => e.covers i.path && b ∈ e.bits) = some e ∧ e.isAllow) ∧
    (∀ b, b ∈ d.denyPrivileges ↔
      ∃ e, entries.find? (fun e => e.covers i.path && b ∈ e.bits) = some e ∧ ¬e.isAllow) ∧
    (∃ parentAllows parentDenies : PrivilegeBits,
      (∀ b, b ∈ parentAllows ↔
        ∃ e, entries.find? (fun e => i.atParent e && b ∈ e.bits) = some e ∧ e.isAllow) ∧
      (∀ b, b ∈ parentDenies ↔
        ∃ e, entries.find? (fun e => i.atParent e && b ∈ e.bits) = some e ∧ ¬e.isAllow) ∧
      d.allows = permissionsFor d.allowPrivileges parentAllows true i.isPolicyItem ∧
      d.denies = permissionsFor d.denyPrivileges parentDenies false i.isPolicyItem) ∧
    (∀ b, ¬(b ∈ d.allowPrivileges ∧ b ∈ d.denyPrivileges)) ∧
    (∀ p, ¬(p ∈ d.allows ∧ p ∈ d.denies)) := by
  intro d
  have hd : d = settled entries i := evaluate_eq entries i
  rw [hd]
  refine ⟨fun b => ?_, fun b => ?_, ?_, ?_, ?_⟩
  · exact mem_decided
  · simp only [Bool.not_eq_true]
    exact mem_decided
  · refine ⟨decided i.atParent true entries, decided i.atParent false entries, fun b => ?_,
      fun b => ?_, rfl, rfl⟩
    · exact mem_decided
    · simp only [Bool.not_eq_true]
      exact mem_decided
  · exact fun b ⟨ha, hd⟩ => decided_disjoint b ha hd
  · exact fun p ⟨ha, hd⟩ => permissionsFor_disjoint decided_disjoint decided_disjoint p ha hd

end PolicyTree
