import PolicyTree.Proofs.Privilege.Registering

namespace PolicyTree

namespace Registry

open Privilege (allName)

variable {r : Registry} {p q : Privilege} {n : String} {customs : List Privilege}
  {bits : PrivilegeBits} {i : Nat}

-- The values of a map, which the library describes for unquotiented maps only.
theorem values_eq {α β : Type} {cmp : α → α → Ordering} [Std.TransCmp cmp]
    (t : Std.ExtTreeMap α β cmp) : t.values = t.toList.map (·.2) := by
  obtain ⟨⟨t⟩⟩ := t
  induction t using Quotient.ind
  case a t =>
    show t.inner.values = (Std.DTreeMap.Internal.Impl.Const.toList t.inner).map (·.2)
    simp [Std.DTreeMap.Internal.Impl.values_eq_map_snd,
      Std.DTreeMap.Internal.Impl.Const.toList_eq_toListModel_map, Function.comp_def]

theorem mem_toList_iff : p ∈ r.toList ↔ ∃ n : String, r.privileges[n]? = some p := by
  simp [toList, values_eq, Std.ExtTreeMap.mem_toList_iff_getElem?_eq_some]

namespace Ledger

-- What the registry knows, by name.
theorem getElem?_iff (h : Ledger customs r) : r.privileges[n]? = some p ↔
    p ∈ Privilege.builtin ++ Privilege.write :: .allWith (concretes customs) :: customs ∧
    p.name = n := by
  have builtin : ∀ p ∈ Privilege.builtin, p.name ≠ allName := by decide
  by_cases hn : n = allName
  case pos =>
    subst hn
    rw [h.all, Option.some_inj]
    constructor
    case mp =>
      rintro rfl
      exact ⟨by simp, rfl⟩
    case mpr =>
      rintro ⟨held, hp⟩
      simp only [List.mem_append, List.mem_cons] at held
      obtain hb | rfl | rfl | hc := held
      · exact absurd hp (builtin p hb)
      · exact absurd hp (by decide)
      · rfl
      · exact absurd hp (h.named p hc)
  case neg =>
    rw [h.others hn, and_congr_left_iff]
    intro hp
    have : p ≠ .allWith (concretes customs) := by
      rintro rfl
      exact hn hp.symm
    simp [this]

theorem mem_toList (h : Ledger customs r) : p ∈ r.toList ↔
    p ∈ Privilege.builtin ∨ p = Privilege.write ∨ p = .allWith (concretes customs) ∨
      p ∈ customs := by
  simp only [mem_toList_iff, h.getElem?_iff, exists_and_left, exists_eq', and_true,
    List.mem_append, List.mem_cons]

theorem mem_concretes_toList (h : Ledger customs r) :
    p ∈ concretes r.toList ↔ p ∈ Privilege.builtin ++ concretes customs := by
  have builtin : ∀ p ∈ Privilege.builtin, p.isConcrete := by decide
  have write : Privilege.write.isConcrete = false := by decide
  simp only [concretes, List.mem_append, List.mem_filter, h.mem_toList]
  constructor
  case mp =>
    rintro ⟨hb | rfl | rfl | hc, concrete⟩
    · exact .inl hb
    · simp [write] at concrete
    · simp [Privilege.isConcrete] at concrete
    · exact .inr ⟨hc, concrete⟩
  case mpr =>
    rintro (hb | ⟨hc, concrete⟩)
    · exact ⟨.inl hb, builtin p hb⟩
    · exact ⟨.inr (.inr (.inr hc)), concrete⟩

theorem allBits_eq (h : Ledger customs r) :
    r.allBits = (Privilege.allWith (concretes customs)).bits := by
  rw [allBits, h.all]

-- The bits that are owned, each by one privilege.
theorem owned (h : Ledger customs r) :
    ∃ owned : List Nat, owned.Nodup ∧ (∀ i ∈ owned, i < 64) ∧
      (Privilege.builtin ++ concretes customs).map (·.bits) = owned.map .single := by
  have builtin : Privilege.builtin.map (·.bits) = (List.range 12).map .single := by decide
  have room := h.nextBit ▸ h.room
  refine ⟨List.range 12 ++ List.range' PrivilegeBits.firstCustom (concretes customs).length,
    ?_, ?_, ?_⟩
  · refine List.nodup_append.2 ⟨List.nodup_range, List.nodup_range', ?_⟩
    simp [PrivilegeBits.firstCustom]
    omega
  · simp [PrivilegeBits.firstCustom] at room ⊢
    omega
  · rw [List.map_append, List.map_append, builtin, h.bits]

theorem exists_single (h : Ledger customs r) (hp : p ∈ concretes r.toList) :
    ∃ i < 64, p.bits = .single i := by
  have ⟨owned, _, bounded, bits⟩ := h.owned
  have := List.mem_map_of_mem (f := (·.bits)) (h.mem_concretes_toList.1 hp)
  rw [bits] at this
  have ⟨i, hi, hb⟩ := List.mem_map.1 this
  exact ⟨i, bounded i hi, hb.symm⟩

theorem nodup_bits (h : Ledger customs r) :
    ((Privilege.builtin ++ concretes customs).map (·.bits)).Nodup := by
  have ⟨owned, nodup, bounded, bits⟩ := h.owned
  rw [bits]
  refine nodup.map_on fun i hi j _ hij => ?_
  have : i ∈ (FlagSet.single i : PrivilegeBits) := FlagSet.mem_single.2 ⟨rfl, bounded i hi⟩
  exact (FlagSet.mem_single.1 (hij ▸ this)).1

theorem eq_of_meets (h : Ledger customs r) (hp : p ∈ concretes r.toList)
    (hq : q ∈ concretes r.toList) (meets : p.bits.meets q.bits) : p = q := by
  have same : p.bits = q.bits := by
    have ⟨_, _, hb⟩ := h.exists_single hp
    have ⟨_, _, hb'⟩ := h.exists_single hq
    have ⟨i, hi, hi'⟩ := FlagSet.meets_iff.1 meets
    rw [hb] at hi
    rw [hb'] at hi'
    rw [hb, hb', ← (FlagSet.mem_single.1 hi).1, ← (FlagSet.mem_single.1 hi').1]
  exact List.inj_on_of_nodup_map h.nodup_bits (h.mem_concretes_toList.1 hp)
    (h.mem_concretes_toList.1 hq) same

theorem allBits_eq_bitsOf (h : Ledger customs r) :
    r.allBits = Privilege.bitsOf (concretes r.toList) := by
  ext i
  simp only [h.allBits_eq, Privilege.mem_bits_allWith, Privilege.mem_bitsOf, h.mem_concretes_toList]

theorem later_mem {l l' : List Privilege} (h : Ledger customs r)
    (split : customs = l ++ p :: l') (hq : q ∈ concretes l') : q ∈ concretes r.toList := by
  have ⟨hq, concrete⟩ := List.mem_filter.1 hq
  have custom : q ∈ customs := split ▸ List.mem_append_right _ (List.mem_cons_of_mem _ hq)
  exact h.mem_concretes_toList.2 (List.mem_append_right _ (List.mem_filter.2 ⟨custom, concrete⟩))

-- None of the bits of an aggregate is owned by a privilege registered later.
theorem bits_disjoint_later {l l' : List Privilege} (h : Ledger customs r)
    (split : customs = l ++ p :: l') (aggregate : p.isAggregate) (hq : q ∈ concretes l') :
    p.bits.Disjoint q.bits := by
  intro i hi hiq
  have earlier := FlagSet.subset_iff.1 (h.aggregate split aggregate).2.1 i hi
  have ⟨q', hq', hiq'⟩ := Privilege.mem_bits_allWith.1 earlier
  have order : concretes customs = concretes l ++ concretes (p :: l') := by
    rw [split]
    exact List.filter_append ..
  have nodup := h.nodup_bits
  rw [order, ← List.append_assoc] at nodup
  have hp : q' ∈ concretes r.toList := by
    rw [h.mem_concretes_toList, order, ← List.append_assoc]
    exact List.mem_append_left _ hq'
  refine (List.nodup_append.1 nodup.of_map).2.2 q' hq' q ?_ ?_
  · exact List.mem_filter.2 ((List.mem_filter.1 hq).imp_left (List.mem_cons_of_mem _))
  · exact h.eq_of_meets hp (h.later_mem split hq) (FlagSet.meets_iff.2 ⟨i, hiq', hiq⟩)

theorem knows (h : Ledger customs r)
    (hp : p ∈ Privilege.builtin ++ Privilege.write :: concretes customs) :
    r.privileges[p.name]? = some p := by
  rw [h.getElem?_iff]
  refine ⟨?_, rfl⟩
  simp only [List.mem_append, List.mem_cons] at hp ⊢
  exact hp.imp_right (Or.imp_right fun hp => .inr (List.mem_of_mem_filter hp))

theorem unites_write (h : Ledger customs r) :
    r.Unites Privilege.write.members Privilege.write.bits := by
  let l := Privilege.builtin.filter (·.name ∈ Privilege.writeMembers)
  have members : Privilege.write.members = l.map (·.name) := by decide
  have bits : Privilege.write.bits = Privilege.bitsOf l := by decide
  rw [members, bits]
  exact unites_names fun p hp => h.knows (List.mem_append_left _ (List.mem_of_mem_filter hp))

-- What the aggregate of all lists carries what it carries itself.
theorem unites_all (h : Ledger customs r) :
    r.Unites (Privilege.allWith (concretes customs)).members r.allBits := by
  let l := Privilege.builtin.filter (·.name ∉ Privilege.writeMembers) ++ [Privilege.write]
  have members : Privilege.all.members = l.map (·.name) := by decide
  have bits : Privilege.all.bits = Privilege.bitsOf l := by decide
  have sum : Privilege.bitsOf l ∪ Privilege.bitsOf (concretes customs) =
      Privilege.bitsOf (l ++ concretes customs) := by
    ext i
    simp [Privilege.mem_bitsOf, or_and_right, exists_or]
  rw [h.allBits_eq, Privilege.allWith, members, bits, sum, ← List.map_append]
  refine unites_names fun p hp => h.knows ?_
  rw [List.append_assoc] at hp
  exact (List.mem_append.1 hp).elim
    (fun hp => List.mem_append_left _ (List.mem_of_mem_filter hp)) (List.mem_append_right _)

end Ledger

-- What is to hold of the privileges that a registry knows, with `customs` the registered ones, in
-- the order in which they were registered.
structure Accounts (customs : List Privilege) (r : Registry) : Prop where
  known     : ∀ p, p ∈ r.toList ↔ r.get p.name = .ok p
  held      : ∀ p, p ∈ r.toList ↔
    p ∈ Privilege.builtin ∨ p = Privilege.write ∨ p ∈ customs ∨ r.get allName = .ok p
  single    : ∀ p ∈ concretes r.toList, ∃ i < 64, p.bits = .single i
  apart     : ∀ p ∈ concretes r.toList, ∀ q ∈ concretes r.toList, p.bits.meets q.bits → p = q
  custom    : (concretes customs).map (·.bits) =
    (List.range' PrivilegeBits.firstCustom (concretes customs).length).map .single
  next      : r.nextBit = PrivilegeBits.firstCustom + (concretes customs).length
  room      : r.nextBit ≤ 64
  abstract  : ∀ p ∈ r.toList, p.isAbstract → p.bits = ∅ ∧ p.members = []
  aggregate : ∀ p ∈ r.toList, p.isAggregate → p.bits ≠ ∅ ∧ p.bits ⊆ r.allBits
  all       : ∃ all, r.get allName = .ok all ∧ all.bits = r.allBits ∧
    r.Unites all.members r.allBits
  allBits   : r.allBits = Privilege.bitsOf (concretes r.toList)

theorem Ledger.accounts (h : Ledger customs r) : Accounts customs r where
  known p := by
    rw [get_eq_ok_iff, h.getElem?_iff, h.mem_toList]
    simp
  held p := by
    rw [get_eq_ok_iff, h.all, h.mem_toList]
    simp [or_comm, or_left_comm, eq_comm]
  single _ := h.exists_single
  apart _ hp _ hq := h.eq_of_meets hp hq
  custom := h.bits
  next := h.nextBit
  room := h.room
  abstract p hp isAbstract := by
    have builtin : ∀ p ∈ Privilege.builtin, ¬p.isAbstract := by decide
    obtain hb | rfl | rfl | hc := h.mem_toList.1 hp
    · exact absurd isAbstract (builtin p hb)
    · exact absurd isAbstract (by decide)
    · exact absurd isAbstract (by simp [Privilege.allWith, Privilege.all])
    · exact h.abstract p hc isAbstract
  aggregate p hp aggregate := by
    have builtin : ∀ p ∈ Privilege.builtin, ¬p.isAggregate := by decide
    obtain ⟨n, known⟩ := mem_toList_iff.1 hp
    refine ⟨?_, h.allBits_eq ▸ h.bits_subset known⟩
    obtain hb | rfl | rfl | hc := h.mem_toList.1 hp
    · exact absurd aggregate (builtin p hb)
    · decide
    · intro none
      have : 0 ∈ Privilege.all.bits := by decide
      exact FlagSet.eq_empty_iff.1 none 0 (FlagSet.mem_union.2 (.inl this))
    · obtain ⟨l, l', split⟩ := List.append_of_mem hc
      exact (h.aggregate split aggregate).1
  all := ⟨_, get_eq_ok_iff.2 h.all, h.allBits_eq.symm, h.unites_all⟩
  allBits := h.allBits_eq_bitsOf

-- The registry that calls make of a new one, and the privileges that they register.

def after (calls : List Registration) : Registry :=
  ((Registration.runAll calls).run .initial).2

def registered (calls : List Registration) : List Privilege :=
  ((Registration.runAll calls).run .initial).1.filterMap (·.toOption)

theorem ledger_after (calls : List Registration) : Ledger (registered calls) (after calls) :=
  Ledger.initial.runAll calls

theorem registry_accounts_for_privileges (calls : List Registration) :
    Accounts (registered calls) (after calls) ∧
    ∀ c : Registration, (∃ p, (c.run.run (after calls)).1 = .ok p) ∨
      (c.run.run (after calls)).2 = after calls := by
  refine ⟨(ledger_after calls).accounts, fun c => ?_⟩
  rw [Registration.run_eq]
  cases (after calls).prepare c.name c.isAbstract c.members
  case error => exact .inr rfl
  case ok p  => exact .inl ⟨p, rfl⟩

-- What of `l` comes after the privilege.
def laterThan (p : Privilege) (l : List Privilege) : List Privilege :=
  (l.dropWhile (· ≠ p)).tail

theorem exists_laterThan {l : List Privilege} (h : p ∈ l) : ∃ l', l = l' ++ p :: laterThan p l := by
  induction l
  case nil => simp at h
  case cons q l hi =>
    by_cases hq : q = p
    case pos =>
      subst hq
      exact ⟨[], by simp [laterThan]⟩
    case neg =>
      have ⟨l', split⟩ := hi ((List.mem_cons.1 h).resolve_left (Ne.symm hq))
      refine ⟨q :: l', ?_⟩
      have : laterThan p (q :: l) = laterThan p l := by simp [laterThan, hq]
      rw [this, List.cons_append, ← split]

theorem Unites.eq {names : List String} {bits' : PrivilegeBits} (h : r.Unites names bits)
    (h' : r.Unites names bits') : bits = bits' := by
  have ⟨l, known, carries⟩ := h
  have ⟨l', known', carries'⟩ := h'
  cases known.symm.trans known'
  exact carries.symm.trans carries'

theorem Ledger.aggregate_cases (h : Ledger customs r) (hp : p ∈ r.toList)
    (aggregate : p.isAggregate) :
    allName ∉ p.members ∧ r.Unites p.members p.bits ∨ p ∈ customs := by
  have builtin : ∀ p ∈ Privilege.builtin, ¬p.isAggregate := by decide
  obtain hb | rfl | rfl | hc := h.mem_toList.1 hp
  · exact absurd aggregate (builtin p hb)
  · exact .inl ⟨by decide, h.unites_write⟩
  · refine .inl ⟨?_, h.allBits_eq ▸ h.unites_all⟩
    have members : allName ∉ Privilege.all.members := by decide
    have named := fun p hp => h.named p (List.mem_of_mem_filter (p := (·.isConcrete)) hp)
    simpa [Privilege.allWith, members, concretes] using named
  · exact .inr hc

-- An aggregate has the bits that its members carry, but for those that have joined the aggregate of
-- all since it was registered.
theorem aggregate_unites_members {calls : List Registration} (h : (after calls).get n = .ok p)
    (aggregate : p.isAggregate) :
    let later := concretes (laterThan p (registered calls))
    (after calls).Unites p.members
      (p.bits ∪ if allName ∈ p.members then Privilege.bitsOf later else ∅) ∧
    ((after calls).Unites p.members p.bits ↔ allName ∉ p.members ∨ later = []) := by
  intro later
  have ledger := ledger_after calls
  have hp : p ∈ (after calls).toList := mem_toList_iff.2 ⟨n, get_eq_ok_iff.1 h⟩
  obtain ⟨members, unites⟩ | custom := ledger.aggregate_cases hp aggregate
  case inl => simp [members, unites, FlagSet.union_empty]
  case inr =>
    have ⟨l, split⟩ := exists_laterThan custom
    have ⟨_, _, unites⟩ := ledger.aggregate split aggregate
    refine ⟨unites, ?_⟩
    constructor
    case mp =>
      intro now
      by_contra hn
      rw [not_or, not_not] at hn
      have ⟨q, hq⟩ := List.exists_mem_of_ne_nil _ hn.2
      have ⟨i, hi, hb⟩ := ledger.exists_single (ledger.later_mem split hq)
      have hi : i ∈ q.bits := hb ▸ FlagSet.mem_single.2 ⟨rfl, hi⟩
      have carried : i ∈ p.bits := by
        rw [now.eq unites, if_pos hn.1, FlagSet.mem_union, Privilege.mem_bitsOf]
        exact .inr ⟨q, hq, hi⟩
      exact ledger.bits_disjoint_later split aggregate hq i carried hi
    case mpr =>
      rintro (members | none)
      · simpa [members, FlagSet.union_empty] using unites
      · have : Privilege.bitsOf later = ∅ := none ▸ rfl
        simpa [later, this, FlagSet.union_empty] using unites

-- A privilege registered after an aggregate that names the aggregate of all is carried by the
-- latter, and not by the former.
def growing : List Registration :=
  [⟨"app:everything", false, ["jcr:all"]⟩, ⟨"app:publish", false, []⟩]

def everything : Privilege := ⟨"app:everything", .builtin, false, ["jcr:all"]⟩

theorem get_everything :
    (after growing).get "app:everything" = .ok everything ∧ everything.isAggregate := by
  decide +kernel

theorem everything_lacks_publish :
    (after growing).get "app:everything" = .ok everything ∧ everything.isAggregate ∧
    (after growing).Unites ["jcr:all"] (everything.bits ∪ FlagSet.single 16) := by
  have later : Privilege.bitsOf (concretes (laterThan everything (registered growing))) =
      FlagSet.single 16 := by
    decide +kernel
  have unites := (aggregate_unites_members get_everything.1 get_everything.2).1
  rw [later] at unites
  exact ⟨get_everything.1, get_everything.2, unites⟩

theorem aggregate_not_union_of_members :
    ¬∀ (calls : List Registration) (n : String) (p : Privilege), (after calls).get n = .ok p →
      p.isAggregate → (after calls).Unites p.members p.bits := by
  intro h
  have ⟨l, known, carries⟩ := h growing _ everything get_everything.1 get_everything.2
  have members : (after growing).getAll everything.members =
      .ok [.allWith [.concrete "app:publish" (.single 16)]] := by
    decide +kernel
  cases known.symm.trans members
  exact absurd carries (by decide +kernel)

end Registry

end PolicyTree
