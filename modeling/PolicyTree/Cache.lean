namespace PolicyTree

-- A map that forgets what was not used for longest. Entries stand in the order of their last use,
-- the latest first.
structure RecencyMap (κ ν : Type) where
  capacity : Nat
  entries  : List (κ × ν)
deriving DecidableEq, Repr

namespace RecencyMap

variable {κ ν : Type} [DecidableEq κ]

-- There is always room for one entry.
def empty (capacity : Nat) : RecencyMap κ ν := ⟨max 1 capacity, []⟩

def size (m : RecencyMap κ ν) : Nat := m.entries.length

-- The value of a key, without using it.
def peek (m : RecencyMap κ ν) (k : κ) : Option ν := m.entries.lookup k

def contains (m : RecencyMap κ ν) (k : κ) : Bool := (m.peek k).isSome

def others (m : RecencyMap κ ν) (k : κ) : List (κ × ν) := m.entries.filter (·.1 ≠ k)

def get (m : RecencyMap κ ν) (k : κ) : Option ν × RecencyMap κ ν :=
  match m.peek k with
  | some v => (some v, { m with entries := (k, v) :: m.others k })
  | none   => (none, m)

-- Also tells what had to go: the key with the value it had, else the entry that was not used for
-- longest if there was no room for another.
def push (m : RecencyMap κ ν) (k : κ) (v : ν) : Option (κ × ν) × RecencyMap κ ν :=
  match m.peek k with
  | some former => (some (k, former), { m with entries := (k, v) :: m.others k })
  | none =>
    if m.size < m.capacity then (none, { m with entries := (k, v) :: m.entries })
    else (m.entries.getLast?, { m with entries := (k, v) :: m.entries.dropLast })

def clear (m : RecencyMap κ ν) : RecencyMap κ ν := { m with entries := [] }

variable {m : RecencyMap κ ν} {k l : κ} {v w : ν}

theorem mem_of_peek (hv : m.peek k = some v) : (k, v) ∈ m.entries := by
  have ⟨_, _, hl, _⟩ := List.lookup_eq_some_iff.1 hv
  exact hl ▸ List.mem_append_right _ List.mem_cons_self

theorem not_mem_of_contains (hk : m.contains k = false) : (k, v) ∉ m.entries := by
  intro hm
  rw [contains, peek, Option.isSome_eq_false_iff, Option.isNone_iff_eq_none,
    List.lookup_eq_none_iff] at hk
  simpa using hk _ hm

theorem get_fst : (m.get k).1 = m.peek k := by
  unfold get
  split
  case h_1 v hv => exact hv.symm
  case h_2 hv   => exact hv.symm

theorem get_of_not_contains (hk : m.contains k = false) : m.get k = (none, m) := by
  have hv : m.peek k = none := by simpa [contains] using hk
  rw [get, hv]

-- Nothing comes in but what is set.

theorem mem_of_mem_get (hm : (l, w) ∈ (m.get k).2.entries) : (l, w) ∈ m.entries := by
  unfold get at hm
  split at hm
  case h_1 v hv =>
    rcases List.mem_cons.1 hm with hm | hm
    · exact hm ▸ mem_of_peek hv
    · exact (List.mem_filter.1 hm).1
  case h_2 => exact hm

theorem mem_of_mem_push (hm : (l, w) ∈ (m.push k v).2.entries) :
    (l, w) = (k, v) ∨ (l, w) ∈ m.entries := by
  unfold push at hm
  split at hm
  case h_1 => exact (List.mem_cons.1 hm).imp_right fun hm => (List.mem_filter.1 hm).1
  case h_2 =>
    split at hm
    case isTrue  => exact List.mem_cons.1 hm
    case isFalse => exact (List.mem_cons.1 hm).imp_right (List.dropLast_subset _ ·)

end RecencyMap

structure CacheStats where
  hits      : Nat
  misses    : Nat
  evictions : Nat
  size      : Nat
deriving DecidableEq, Repr

namespace CacheStats

-- Nought if there were no lookups.
def hitRate (s : CacheStats) : Float :=
  let total := s.hits.toUInt64 + s.misses.toUInt64
  if total = 0 then 0.0 else s.hits.toUInt64.toFloat / total.toFloat

end CacheStats

-- The counters of the program are words of 64 bits. They are the same as these as long as fewer
-- than 2 ^ 64 calls are made.
structure Cache (κ ν : Type) extends RecencyMap κ ν where
  hits      : Nat
  misses    : Nat
  evictions : Nat
deriving DecidableEq, Repr

namespace Cache

variable {κ ν : Type} [DecidableEq κ]

def empty (capacity : Nat) : Cache κ ν := ⟨.empty capacity, 0, 0, 0⟩

def stats (c : Cache κ ν) : CacheStats := ⟨c.hits, c.misses, c.evictions, c.size⟩

def get (c : Cache κ ν) (k : κ) : Option ν × Cache κ ν :=
  match c.toRecencyMap.get k with
  | (some v, m) => (some v, { c with toRecencyMap := m, hits := c.hits + 1 })
  | (none, m)   => (none, { c with toRecencyMap := m, misses := c.misses + 1 })

-- To replace the value of a key evicts nothing.
def put (c : Cache κ ν) (k : κ) (v : ν) : Cache κ ν :=
  match c.push k v with
  | (some (former, _), m) =>
    if former ≠ k then { c with toRecencyMap := m, evictions := c.evictions + 1 }
    else { c with toRecencyMap := m }
  | (none, m) => { c with toRecencyMap := m }

-- The counters stay as they are.
def clear (c : Cache κ ν) : Cache κ ν := { c with toRecencyMap := c.toRecencyMap.clear }

variable {c : Cache κ ν} {k : κ} {v : ν}

theorem toRecencyMap_get : (c.get k).2.toRecencyMap = (c.toRecencyMap.get k).2 := by
  unfold get
  split <;> simp [*]

theorem toRecencyMap_put : (c.put k v).toRecencyMap = (c.push k v).2 := by
  unfold put
  split
  case h_1 => split <;> simp [*]
  case h_2 => simp [*]

theorem get_fst : (c.get k).1 = c.peek k := by
  rw [← RecencyMap.get_fst]
  unfold get
  split <;> simp [*]

theorem get_of_not_contains (hk : c.contains k = false) :
    c.get k = (none, { c with misses := c.misses + 1 }) := by
  rw [get, RecencyMap.get_of_not_contains hk]

end Cache

end PolicyTree
