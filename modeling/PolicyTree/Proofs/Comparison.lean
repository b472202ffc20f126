import PolicyTree.Proofs.Precedence

namespace PolicyTree

namespace Decision

-- Allows no more than the other decision, and denies no less.
structure NoWider (d d' : Decision) : Prop where
  allows          : d.allows ⊆ d'.allows
  denies          : d'.denies ⊆ d.denies
  allowPrivileges : d.allowPrivileges ⊆ d'.allowPrivileges
  denyPrivileges  : d'.denyPrivileges ⊆ d.denyPrivileges

-- What it decides, the other decision decides the same way.
structure KeptBy (d d' : Decision) : Prop where
  allows          : d.allows ⊆ d'.allows
  denies          : d.denies ⊆ d'.denies
  allowPrivileges : d.allowPrivileges ⊆ d'.allowPrivileges
  denyPrivileges  : d.denyPrivileges ⊆ d'.denyPrivileges

end Decision

variable {counts : Entry → Bool} {isAllow : Bool} {e : Entry} {xs ys : List Entry} {i : Item}

-- A privilege is decided by the entry that is put in, or by the same one as without it.
theorem decider_insert (counts : Entry → Bool) (b : Nat) (xs : List Entry) (e : Entry)
    (ys : List Entry) : decider counts b (xs ++ [e] ++ ys) = some e ∨
      decider counts b (xs ++ [e] ++ ys) = decider counts b (xs ++ ys) := by
  simp only [decider, List.find?_append, List.find?_singleton]
  by_cases he : counts e && b ∈ e.bits
  case neg => simp [he]
  case pos => cases xs.find? fun e => counts e && b ∈ e.bits <;> simp [he]

theorem decided_insert_subset (he : e.isAllow ≠ isAllow) :
    decided counts isAllow (xs ++ [e] ++ ys) ⊆ decided counts isAllow (xs ++ ys) := by
  refine FlagSet.subset_iff.2 fun b hb => ?_
  obtain ⟨d, hd, ha⟩ := mem_decided.1 hb
  rcases decider_insert counts b xs e ys with own | same
  · obtain rfl := Option.some_inj.1 (own.symm.trans hd)
    exact absurd ha he
  · exact mem_decided.2 ⟨d, same.symm.trans hd, ha⟩

theorem decided_subset_insert (he : e.isAllow = isAllow) :
    decided counts isAllow (xs ++ ys) ⊆ decided counts isAllow (xs ++ [e] ++ ys) := by
  refine FlagSet.subset_iff.2 fun b hb => ?_
  obtain ⟨d, hd, ha⟩ := mem_decided.1 hb
  rcases decider_insert counts b xs e ys with own | same
  · exact mem_decided.2 ⟨e, own, he⟩
  · exact mem_decided.2 ⟨d, same.trans hd, ha⟩

theorem decided_subset_append :
    decided counts isAllow xs ⊆ decided counts isAllow (xs ++ ys) := by
  refine FlagSet.subset_iff.2 fun b hb => ?_
  obtain ⟨d, hd, ha⟩ := mem_decided.1 hb
  have decider : decider counts b (xs ++ ys) = some d := by
    rw [PolicyTree.decider] at hd ⊢
    rw [List.find?_append, hd, Option.some_or]
  exact mem_decided.2 ⟨d, decider, ha⟩

-- The permissions follow the privileges of both levels. It does not take the same to allow that a
-- node is removed as to deny it, but either way more privileges stand for no fewer permissions.
theorem noWider_of_decided
    (allows : ∀ counts, decided counts true xs ⊆ decided counts true ys)
    (denies : ∀ counts, decided counts false ys ⊆ decided counts false xs) :
    (evaluate xs i).NoWider (evaluate ys i) := by
  rw [evaluate_eq, evaluate_eq]
  exact {
    allows          := permissionsFor_mono (allows _) (allows _)
    denies          := permissionsFor_mono (denies _) (denies _)
    allowPrivileges := allows _
    denyPrivileges  := denies _ }

theorem keptBy_append : (evaluate xs i).KeptBy (evaluate (xs ++ ys) i) := by
  rw [evaluate_eq, evaluate_eq]
  exact {
    allows          := permissionsFor_mono decided_subset_append decided_subset_append
    denies          := permissionsFor_mono decided_subset_append decided_subset_append
    allowPrivileges := decided_subset_append
    denyPrivileges  := decided_subset_append }

-- Anywhere among the entries, one that allows never narrows the decision and one that denies never
-- widens it.
theorem inserted_entry_moves_own_way (xs ys : List Entry) (e : Entry) (i : Item) :
    if e.isAllow then (evaluate (xs ++ ys) i).NoWider (evaluate (xs ++ [e] ++ ys) i)
    else (evaluate (xs ++ [e] ++ ys) i).NoWider (evaluate (xs ++ ys) i) := by
  split
  case isTrue he =>
    exact noWider_of_decided (fun _ => decided_subset_insert he)
      fun _ => decided_insert_subset (by simp [he])
  case isFalse he =>
    exact noWider_of_decided (fun _ => decided_insert_subset he)
      fun _ => decided_subset_insert (by simpa using he)

end PolicyTree
