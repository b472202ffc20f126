import PolicyTree.Proofs.Policy.Readability
import PolicyTree.Proofs.Precedence

namespace PolicyTree

structure Registration where
  name       : String
  isAbstract : Bool
  members    : List String
deriving DecidableEq

namespace Registration

variable {c : Registration} {r : Registry}

def run (c : Registration) : StateM Registry (Except AccessError Privilege) :=
  (Registry.enrol c.name c.isAbstract c.members).run

def runAll (calls : List Registration) : StateM Registry (List (Except AccessError Privilege)) :=
  calls.mapM run

-- A try that succeeds is stored.
theorem run_set_of (x : Except AccessError (Privilege × Registry)) :
    (do
      let (p, r) ← (liftM x : ExceptT AccessError (StateM Registry) _)
      set r
      return p).run.run r =
    match x with
    | .ok (p, r) => (.ok p, r)
    | .error e   => (.error e, r) := by
  cases x <;> rfl

theorem run_eq : c.run.run r =
    match r.prepare c.name c.isAbstract c.members with
    | .ok p    => (.ok p, r.add p)
    | .error e => (.error e, r) := by
  refine (run_set_of (r.register c.name c.isAbstract c.members)).trans ?_
  rw [Registry.register]
  cases r.prepare c.name c.isAbstract c.members <;> rfl

theorem run_runAll_cons {calls : List Registration} : (runAll (c :: calls)).run r =
    ((c.run.run r).1 :: ((runAll calls).run (c.run.run r).2).1,
      ((runAll calls).run (c.run.run r).2).2) := by
  rw [runAll, List.mapM_cons]
  rfl

end Registration

theorem FlagSet.union_empty {w : Nat} {a : FlagSet w} : a ∪ ∅ = a := by
  ext i
  simp

namespace Privilege

variable {p q : Privilege} {l : List Privilege} {i : Nat}

theorem mem_bitsOf : i ∈ bitsOf l ↔ ∃ p ∈ l, i ∈ p.bits := by
  simp [bitsOf]

def allWith (l : List Privilege) : Privilege :=
  { all with bits := all.bits ∪ bitsOf l, members := all.members ++ l.map (·.name) }

@[simp] theorem isAggregate_allWith : (allWith l).isAggregate := by
  simp [isAggregate, allWith, all]

theorem mem_bits_allWith : i ∈ (allWith l).bits ↔ ∃ p ∈ builtin ++ l, i ∈ p.bits := by
  have : all.bits = bitsOf builtin := by decide
  simp [allWith, this, mem_bitsOf, or_and_right, exists_or]

theorem allWith_concat : allWith (l ++ [p]) =
    { allWith l with
      bits := (allWith l).bits ∪ p.bits
      members := (allWith l).members ++ [p.name] } := by
  have : bitsOf (l ++ [p]) = bitsOf l ∪ p.bits := by
    ext i
    simp [mem_bitsOf, or_and_right, exists_or]
  simp only [allWith, this, List.map_append, List.append_assoc, List.map_cons, List.map_nil]
  congr 1
  ext i
  simp [or_assoc]

end Privilege

namespace Registry

open Privilege (allName)

variable {r : Registry} {c : Registration} {p q : Privilege} {n : String} {customs : List Privilege}
  {bits : PrivilegeBits} {i : Nat}

-- The ways in which a privilege is made.
inductive Admits (r : Registry) : Privilege → Prop where
  | concrete {name} (room : r.nextBit < 64) : Admits r (.concrete name (.single r.nextBit))
  | abstract {name} : Admits r ⟨name, ∅, true, []⟩
  | aggregate {name names privileges} (known : r.getAll names = .ok privileges)
      (named : names ≠ []) (carries : Privilege.bitsOf privileges ≠ ∅) :
      Admits r ⟨name, Privilege.bitsOf privileges, false, names⟩

theorem admits_of_prepare (h : r.prepare c.name c.isAbstract c.members = .ok p) :
    p.name = c.name ∧ p.name ∉ r.privileges ∧ Admits r p := by
  obtain ⟨name, isAbstract, names⟩ := c
  simp only [prepare] at h
  split at h
  case isTrue => simp at h
  case isFalse =>
  split at h
  case isTrue => simp at h
  case isFalse _ fresh =>
  cases isAbstract
  case true =>
    by_cases hn : names = []
    case neg => simp [hn] at h
    case pos =>
      simp only [if_true, if_pos hn, Except.ok.injEq] at h
      subst h
      exact ⟨rfl, fresh, .abstract⟩
  case false =>
    by_cases hn : names = []
    case pos =>
      by_cases room : r.nextBit < 64
      case neg => simp [hn, room] at h
      case pos =>
        simp only [Bool.false_eq_true, if_false, if_pos hn, if_pos room, Except.ok.injEq] at h
        subst h
        exact ⟨rfl, fresh, .concrete room⟩
    case neg =>
      simp only [Bool.false_eq_true, if_false, if_neg hn, bind_eq_ok_iff] at h
      obtain ⟨privileges, known, h⟩ := h
      split at h
      case isTrue => simp at h
      case isFalse carries =>
        simp only [Except.ok.injEq] at h
        subst h
        exact ⟨rfl, fresh, .aggregate known hn carries⟩

theorem getElem?_add : (r.add p).privileges[n]? =
    if p.name = n then some p
    else if n = allName ∧ p.isConcrete then
      (r.privileges[allName]?).map fun all =>
        { all with bits := all.bits ∪ p.bits, members := all.members ++ [p.name] }
    else r.privileges[n]? := by
  cases hc : p.isConcrete <;>
    simp [add, hc, Std.ExtTreeMap.getElem?_insert, Std.ExtTreeMap.getElem?_modify,
      eq_comm (a := n)]

theorem nextBit_add : (r.add p).nextBit = if p.isConcrete then r.nextBit + 1 else r.nextBit := by
  cases hc : p.isConcrete <;> simp [add, hc]

def Unites (r : Registry) (names : List String) (bits : PrivilegeBits) : Prop :=
  ∃ privileges, r.getAll names = .ok privileges ∧ Privilege.bitsOf privileges = bits

theorem getAll_eq_ok_iff {names : List String} {l : List Privilege} :
    r.getAll names = .ok l ↔ List.Forall₂ (fun n p => r.privileges[n]? = some p) names l := by
  simp only [getAll, mapM_eq_ok_iff, get_eq_ok_iff]

theorem exists_getAll_iff {names : List String} :
    (∃ l, r.getAll names = .ok l) ↔ ∀ n ∈ names, ∃ p, r.privileges[n]? = some p := by
  simpa [getAll_eq_ok_iff] using exists_forall₂_iff (l := names) (Q := fun _ => True)
    (R := fun n p => r.privileges[n]? = some p)

theorem mem_bitsOf_getAll {names : List String} {l : List Privilege} (h : r.getAll names = .ok l) :
    i ∈ Privilege.bitsOf l ↔ ∃ n ∈ names, ∃ p, r.privileges[n]? = some p ∧ i ∈ p.bits := by
  rw [Privilege.mem_bitsOf]
  induction getAll_eq_ok_iff.1 h
  case nil => simp
  case cons n p names l hp known hi => simp [hp, hi (getAll_eq_ok_iff.2 known)]

theorem unites_names {l : List Privilege} (known : ∀ p ∈ l, r.privileges[p.name]? = some p) :
    r.Unites (l.map (·.name)) (Privilege.bitsOf l) :=
  ⟨l, Entry.getAll_names fun p hp => get_eq_ok_iff.2 (known p hp), rfl⟩

theorem unites_iff {names : List String} : r.Unites names bits ↔
    (∀ n ∈ names, ∃ p, r.privileges[n]? = some p) ∧
    ∀ i, i ∈ bits ↔ ∃ n ∈ names, ∃ p, r.privileges[n]? = some p ∧ i ∈ p.bits := by
  rw [← exists_getAll_iff]
  constructor
  case mp =>
    intro ⟨l, known, carries⟩
    exact ⟨⟨l, known⟩, fun i => carries ▸ mem_bitsOf_getAll known⟩
  case mpr =>
    intro ⟨⟨l, known⟩, carries⟩
    exact ⟨l, known, FlagSet.ext fun i => (mem_bitsOf_getAll known).trans (carries i).symm⟩

theorem Admits.of_isAggregate (h : r.Admits p) (aggregate : p.isAggregate) :
    p.bits ≠ ∅ ∧ r.Unites p.members p.bits := by
  cases h
  case concrete => simp [Privilege.concrete, Privilege.isAggregate] at aggregate
  case abstract => simp [Privilege.isAggregate] at aggregate
  case aggregate known named carries => exact ⟨carries, _, known, rfl⟩

-- Another privilege changes nothing of what the names carry, unless it owns a bit and joins the
-- aggregate of all, and this is among them.
theorem Unites.add {names : List String} (h : r.Unites names bits) (fresh : q.name ∉ r.privileges) :
    (r.add q).Unites names (bits ∪ if allName ∈ names ∧ q.isConcrete then q.bits else ∅) := by
  rw [unites_iff] at h ⊢
  have ⟨known, carries⟩ := h
  have others {n : String} (hn : n ∈ names) : q.name ≠ n := by
    rintro rfl
    have ⟨p, hp⟩ := known _ hn
    exact fresh (Std.ExtTreeMap.mem_iff_isSome_getElem?.2 (by simp [hp]))
  constructor
  case left =>
    intro n hn
    have ⟨p, hp⟩ := known n hn
    rw [getElem?_add, if_neg (others hn)]
    split
    case isTrue h => simp [← h.1, hp]
    case isFalse => exact ⟨p, hp⟩
  case right =>
    intro i
    have changed {n : String} (hn : n ∈ names) :
        (∃ p, (r.add q).privileges[n]? = some p ∧ i ∈ p.bits) ↔
        (∃ p, r.privileges[n]? = some p ∧ i ∈ p.bits) ∨
          (n = allName ∧ q.isConcrete) ∧ i ∈ q.bits := by
      have ⟨p, hp⟩ := known n hn
      rw [getElem?_add, if_neg (others hn)]
      split
      case isTrue h =>
        obtain ⟨rfl, hc⟩ := h
        simp [hp, hc]
      case isFalse h => simp [h]
    rw [FlagSet.mem_union, carries, exists_congr fun n => and_congr_right changed]
    split <;> simp_all [and_or_left, exists_or]

def concretes (l : List Privilege) : List Privilege :=
  l.filter (·.isConcrete)

theorem concretes_concat : concretes (customs ++ [q]) = concretes customs ++ concretes [q] :=
  List.filter_append ..

theorem union_later {l : List Privilege} {names : List String} :
    (bits ∪ if allName ∈ names then Privilege.bitsOf (concretes l) else ∅) ∪
      (if allName ∈ names ∧ q.isConcrete then q.bits else ∅) =
    bits ∪ if allName ∈ names then Privilege.bitsOf (concretes (l ++ [q])) else ∅ := by
  ext i
  rw [concretes_concat]
  by_cases hn : allName ∈ names <;> cases hc : q.isConcrete <;>
    simp [hn, hc, concretes, Privilege.mem_bitsOf, or_and_right, exists_or, or_assoc]

-- A registry in which `customs` have been registered, in this order.
structure Ledger (customs : List Privilege) (r : Registry) : Prop where
  all       : r.privileges[allName]? = some (.allWith (concretes customs))
  others    : ∀ {n p}, n ≠ allName → (r.privileges[n]? = some p ↔
    p ∈ Privilege.builtin ++ Privilege.write :: customs ∧ p.name = n)
  named     : ∀ p ∈ customs, p.name ≠ allName
  nextBit   : r.nextBit = PrivilegeBits.firstCustom + (concretes customs).length
  room      : r.nextBit ≤ 64
  bits      : (concretes customs).map (·.bits) =
    (List.range' PrivilegeBits.firstCustom (concretes customs).length).map .single
  abstract  : ∀ p ∈ customs, p.isAbstract → p.bits = ∅ ∧ p.members = []
  aggregate : ∀ {l p l'}, customs = l ++ p :: l' → p.isAggregate →
    p.bits ≠ ∅ ∧ p.bits ⊆ (Privilege.allWith (concretes l)).bits ∧
    r.Unites p.members
      (p.bits ∪ if allName ∈ p.members then Privilege.bitsOf (concretes l') else ∅)

theorem getElem?_initial : initial.privileges[n]? = some p ↔
    p ∈ Privilege.builtin ++ [Privilege.write, Privilege.all] ∧ p.name = n := by
  have known : ∀ x ∈ initial.privileges.toList,
      x.2 ∈ Privilege.builtin ++ [Privilege.write, Privilege.all] ∧ x.2.name = x.1 := by
    decide +kernel
  have all : ∀ p ∈ Privilege.builtin ++ [Privilege.write, Privilege.all],
      (p.name, p) ∈ initial.privileges.toList := by
    decide +kernel
  rw [← Std.ExtTreeMap.mem_toList_iff_getElem?_eq_some]
  exact ⟨known (n, p), fun ⟨hp, hn⟩ => hn ▸ all p hp⟩

namespace Ledger

theorem initial : Ledger [] .initial where
  all := by decide +kernel
  others {n p} hn := by
    rw [getElem?_initial, and_congr_left_iff]
    intro hp
    have : p ≠ Privilege.all := by
      rintro rfl
      exact hn hp.symm
    simp [this]
  named := by simp
  nextBit := rfl
  room := by decide
  bits := rfl
  abstract := by simp
  aggregate := by simp

theorem fresh_ne (h : Ledger customs r) (fresh : q.name ∉ r.privileges) : q.name ≠ allName := by
  intro hq
  exact fresh (Std.ExtTreeMap.mem_iff_isSome_getElem?.2 (by simp [hq, h.all]))

theorem bits_add (h : Ledger customs r) (admitted : Admits r q) :
    r.nextBit + (concretes [q]).length ≤ 64 ∧
    (concretes [q]).map (·.bits) = (List.range' r.nextBit (concretes [q]).length).map .single := by
  cases admitted
  case concrete name room => exact ⟨room, rfl⟩
  case abstract => exact ⟨h.room, rfl⟩
  case aggregate names privileges known named carries =>
    have : names.isEmpty = false := by simpa using named
    simpa [concretes, Privilege.isConcrete, Privilege.isAggregate, this] using h.room

-- All that is known lies in the aggregate of all.
theorem bits_subset (h : Ledger customs r) (hp : r.privileges[n]? = some p) :
    p.bits ⊆ (Privilege.allWith (concretes customs)).bits := by
  by_cases hn : n = allName
  case pos =>
    subst hn
    cases h.all.symm.trans hp
    exact FlagSet.subset_iff.2 fun _ hi => hi
  case neg =>
    have ⟨held, _⟩ := (h.others hn).1 hp
    rw [FlagSet.subset_iff]
    intro i hi
    rw [Privilege.mem_bits_allWith]
    simp only [List.mem_append, List.mem_cons] at held
    obtain builtin | rfl | custom := held
    case inl => exact ⟨p, List.mem_append_left _ builtin, hi⟩
    case inr.inl =>
      have : Privilege.write.bits ⊆ Privilege.bitsOf Privilege.builtin := by decide
      have ⟨q, hq, hiq⟩ := Privilege.mem_bitsOf.1 (FlagSet.subset_iff.1 this i hi)
      exact ⟨q, List.mem_append_left _ hq, hiq⟩
    case inr.inr =>
      by_cases hc : p.isConcrete
      case pos => exact ⟨p, List.mem_append_right _ (List.mem_filter.2 ⟨custom, hc⟩), hi⟩
      case neg =>
        by_cases ha : p.isAbstract
        case pos => simp [h.abstract p custom ha] at hi
        case neg =>
          have aggregate : p.isAggregate := by simpa [Privilege.isConcrete, ha] using hc
          have ⟨l, l', split⟩ := List.append_of_mem custom
          have hi := FlagSet.subset_iff.1 (h.aggregate split aggregate).2.1 i hi
          have ⟨q, hq, hi⟩ := Privilege.mem_bits_allWith.1 hi
          refine ⟨q, ?_, hi⟩
          rw [split, concretes, List.filter_append, ← List.append_assoc]
          exact List.mem_append_left _ hq

theorem add (h : Ledger customs r) (fresh : q.name ∉ r.privileges) (admitted : Admits r q) :
    Ledger (customs ++ [q]) (r.add q) where
  all := by
    rw [getElem?_add, if_neg (h.fresh_ne fresh), h.all]
    cases hc : q.isConcrete <;>
      simp [concretes, hc, Privilege.allWith_concat]
  others {n p} hn := by
    have concat : p ∈ Privilege.builtin ++ Privilege.write :: (customs ++ [q]) ↔
        p ∈ Privilege.builtin ++ Privilege.write :: customs ∨ p = q := by
      simp [or_assoc]
    rw [getElem?_add, if_neg (c := n = allName ∧ _) (fun h => hn h.1), concat]
    by_cases hq : q.name = n
    case pos =>
      rw [if_pos hq]
      constructor
      case mp =>
        rintro ⟨rfl⟩
        exact ⟨.inr rfl, hq⟩
      case mpr =>
        rintro ⟨held | rfl, hp⟩
        case inl =>
          have known := (h.others hn).2 ⟨held, hp⟩
          exact absurd (Std.ExtTreeMap.mem_iff_isSome_getElem?.2 (by simp [hq, known])) fresh
        case inr => rfl
    case neg =>
      rw [if_neg hq, h.others hn, and_congr_left_iff]
      intro hp
      have : p ≠ q := by
        rintro rfl
        exact hq hp
      simp [this]
  named := by
    have := h.fresh_ne fresh
    simpa [or_imp, forall_and, this] using h.named
  nextBit := by
    rw [nextBit_add, h.nextBit]
    cases hc : q.isConcrete <;> simp [concretes, hc, Nat.add_assoc]
  room := by
    have := (h.bits_add admitted).1
    rw [nextBit_add]
    cases hc : q.isConcrete <;> simp_all [concretes]
  bits := by
    have := (h.bits_add admitted).2
    rw [h.nextBit] at this
    rw [concretes_concat, List.map_append, h.bits, this, List.length_append, ← List.map_append,
      List.range'_append_1]
  abstract := by
    have new : q.isAbstract → q.bits = ∅ ∧ q.members = [] := by
      cases admitted <;> simp [Privilege.concrete]
    intro p hp
    obtain hp | rfl := List.mem_append.1 hp |>.imp_right List.mem_singleton.1
    · exact h.abstract p hp
    · exact new
  aggregate {l p l'} split aggregate := by
    obtain rfl | ⟨later, q', rfl⟩ := List.eq_nil_or_concat' l'
    case inl =>
      obtain ⟨rfl, hq⟩ := List.append_inj' split rfl
      obtain rfl : q = p := List.singleton_inj.1 hq
      have ⟨carries, unites⟩ := admitted.of_isAggregate aggregate
      refine ⟨carries, FlagSet.subset_iff.2 fun i hi => ?_, ?_⟩
      · have ⟨n, hn, p, hp, hi⟩ := ((unites_iff.1 unites).2 i).1 hi
        exact FlagSet.subset_iff.1 (h.bits_subset hp) i hi
      · have none : q.bits ∪ (if allName ∈ q.members ∧ q.isConcrete then q.bits else ∅) =
            q.bits ∪ if allName ∈ q.members then Privilege.bitsOf (concretes []) else ∅ := by
          have : Privilege.bitsOf (concretes []) = ∅ := rfl
          simp [Privilege.isConcrete, aggregate, this]
        exact none ▸ unites.add fresh
    case inr =>
      rw [← List.cons_append, ← List.append_assoc] at split
      obtain ⟨hl, hq⟩ := List.append_inj' split rfl
      obtain rfl : q = q' := List.singleton_inj.1 hq
      have ⟨carries, sub, unites⟩ := h.aggregate hl aggregate
      exact ⟨carries, sub, union_later ▸ unites.add fresh⟩

theorem run (h : Ledger customs r) (c : Registration) :
    Ledger (customs ++ (c.run.run r).1.toOption.toList) (c.run.run r).2 := by
  rw [Registration.run_eq]
  cases hp : r.prepare c.name c.isAbstract c.members
  case error => simpa [Except.toOption] using h
  case ok p =>
    obtain ⟨_, fresh, admitted⟩ := admits_of_prepare hp
    exact h.add fresh admitted

theorem runAll (h : Ledger customs r) (calls : List Registration) :
    Ledger (customs ++ ((Registration.runAll calls).run r).1.filterMap (·.toOption))
      ((Registration.runAll calls).run r).2 := by
  induction calls generalizing customs r
  case nil =>
    show Ledger (customs ++ []) r
    rwa [List.append_nil]
  case cons c calls hi =>
    have later := hi (h.run c)
    rw [Registration.run_runAll_cons]
    rw [List.append_assoc] at later
    cases ha : (c.run.run r).1 <;> simpa [ha, Except.toOption] using later

end Ledger

end Registry

end PolicyTree
