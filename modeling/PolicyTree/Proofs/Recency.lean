import PolicyTree.Cache
import PolicyTree.Proofs.Distinct

namespace PolicyTree.Cache

variable {κ ν : Type}

inductive Call (κ ν : Type)
  | get (k : κ)
  | put (k : κ) (v : ν)
  | contains (k : κ)
  | clear
deriving DecidableEq, Repr

namespace Call

def isGet : Call κ ν → Bool
  | get _ => true
  | _ => false

variable [DecidableEq κ]

def sets? (k : κ) : Call κ ν → Option ν
  | put l v => if l = k then some v else none
  | _ => none

def run (c : Cache κ ν) : Call κ ν → Cache κ ν
  | get k => (c.get k).2
  | put k v => c.put k v
  | contains _ => c
  | clear => c.clear

end Call

variable [DecidableEq κ]

def after (capacity : Nat) : List (Call κ ν) → Cache κ ν
  | [] => empty capacity
  | call :: calls => call.run (after capacity calls)

-- Of the keys in the order of their uses, the latest first, one counts as long as fewer others than
-- there is room for were used since.
def Recent (room : Nat) (used : List κ) (k : κ) : Prop :=
  k ∈ used ∧ (used.takeWhile (· ≠ k)).eraseDups.length < room

instance (room : Nat) (used : List κ) (k : κ) : Decidable (Recent room used k) :=
  inferInstanceAs (Decidable (_ ∧ _))

-- The keys that were used since everything was forgotten. To look up what is not there is no use.
def used (room : Nat) : List (Call κ ν) → List κ
  | [] => []
  | .get k :: calls => if Recent room (used room calls) k then k :: used room calls
      else used room calls
  | .put k _ :: calls => k :: used room calls
  | .contains _ :: calls => used room calls
  | .clear :: _ => []

def lastSet? (k : κ) (calls : List (Call κ ν)) : Option ν := calls.findSome? (·.sets? k)

def entered (capacity : Nat) : List (Call κ ν) → Nat
  | [] => 0
  | .put k _ :: calls =>
      entered capacity calls + if (after capacity calls).contains k then 0 else 1
  | .get _ :: calls | .contains _ :: calls | .clear :: calls => entered capacity calls

-- The number of entries that were forgotten at once with all others.
def dropped (capacity : Nat) : List (Call κ ν) → Nat
  | [] => 0
  | .clear :: calls => dropped capacity calls + (after capacity calls).size
  | .get _ :: calls | .put _ _ :: calls | .contains _ :: calls => dropped capacity calls

end Cache

namespace RecencyMap

open Cache (Recent)

variable {κ ν : Type} [DecidableEq κ] {m : RecencyMap κ ν} {k l : κ} {v w : ν} {us : List κ}
  {last? : κ → Option ν}

def keys (m : RecencyMap κ ν) : List κ := m.entries.map (·.1)

theorem keys_others : (m.others k).map (·.1) = m.keys.filter (· ≠ k) := by
  rw [others, keys, List.filter_map]
  rfl

theorem contains_iff : m.contains k ↔ k ∈ m.keys := by
  rw [contains, peek, List.lookup_isSome_iff, keys, List.mem_map]
  grind

theorem contains_of_peek (hv : m.peek k = some v) : m.contains k := Option.isSome_of_eq_some hv

theorem not_contains_of_peek (hv : m.peek k = none) : m.contains k = false := by
  rw [contains, hv, Option.isSome_none]

omit [DecidableEq κ] in
theorem size_eq : m.size = m.keys.length := (List.length_map _).symm

theorem capacity_get : (m.get k).2.capacity = m.capacity := by
  unfold get
  split <;> rfl

theorem capacity_push : (m.push k v).2.capacity = m.capacity := by
  unfold push
  repeat' split
  all_goals rfl

-- The keys that were used last are there, each with its value.
structure Keeps (m : RecencyMap κ ν) (us : List κ) (last? : κ → Option ν) : Prop where
  room   : 0 < m.capacity
  keys   : m.keys = us.eraseDups.take m.capacity
  values : ∀ kv ∈ m.entries, last? kv.1 = some kv.2

namespace Keeps

variable (h : m.Keeps us last?)

include h

theorem contains_iff : m.contains k ↔ Recent m.capacity us k := by
  rw [RecencyMap.contains_iff, h.keys]
  exact mem_take_eraseDups_iff

theorem nodup : m.keys.Nodup := h.keys ▸ nodup_eraseDups.sublist (List.take_sublist _ _)

theorem last_of_peek (hv : m.peek k = some v) : last? k = some v := h.values _ (mem_of_peek hv)

theorem values_cons {es : List (κ × ν)} (hes : ∀ kv ∈ es, kv ∈ m.entries ∧ kv.1 ≠ k) :
    ∀ kv ∈ (k, v) :: es, (if k = kv.1 then some v else last? kv.1) = some kv.2 := by
  intro kv hkv
  rcases List.mem_cons.1 hkv with rfl | hkv
  · exact if_pos rfl
  · rw [if_neg (Ne.symm (hes kv hkv).2), h.values kv (hes kv hkv).1]

-- A key that is there comes first when it is used.
theorem promote (there : m.contains k) :
    { m with entries := (k, v) :: m.others k }.Keeps (k :: us)
      fun l => if k = l then some v else last? l where
  room := h.room
  keys := by
    have there := h.keys ▸ RecencyMap.contains_iff.1 there
    obtain ⟨n, hn⟩ := Nat.exists_add_one_eq.2 h.room
    rw [← hn] at there
    rw [RecencyMap.keys, List.map_cons, keys_others, h.keys, ← hn, take_eraseDups_cons_of_mem there]
  values := h.values_cons fun kv hkv => by simpa [others] using hkv

-- A new key comes first, and no more than what there is room for is left of what was there.
theorem insert {es : List (κ × ν)} (new : m.contains k = false)
    (hes : es = m.entries.take (m.capacity - 1)) :
    { m with entries := (k, v) :: es }.Keeps (k :: us) fun l => if k = l then some v else last? l
    where
  room := h.room
  keys := by
    obtain ⟨n, hn⟩ := Nat.exists_add_one_eq.2 h.room
    have new : k ∉ us.eraseDups.take (n + 1) := by
      rw [hn, ← h.keys, ← RecencyMap.contains_iff, new]
      exact Bool.false_ne_true
    have kept : es.map (·.1) = us.eraseDups.take n := by
      rw [hes, List.map_take, ← RecencyMap.keys, h.keys, List.take_take, ← hn, Nat.add_sub_cancel,
        Nat.min_eq_left n.le_succ]
    rw [RecencyMap.keys, List.map_cons, kept, ← hn, take_eraseDups_cons_of_notMem new]
  values := h.values_cons fun kv hkv => by
    have hkv := List.mem_of_mem_take (hes ▸ hkv)
    refine ⟨hkv, fun hk => ?_⟩
    rw [Bool.eq_false_iff, Ne, RecencyMap.contains_iff] at new
    exact new (hk ▸ List.mem_map_of_mem hkv)

theorem others_length (there : m.contains k) : (m.others k).length + 1 = m.size := by
  have erased : m.keys.erase k = m.keys.filter (· ≠ k) := by
    rw [h.nodup.erase_eq_filter]
    exact List.filter_congr fun l _ => by rw [Bool.eq_iff_iff]; simp
  rw [size_eq, ← List.length_map (·.1), keys_others, ← erased,
    List.length_erase_add_one (RecencyMap.contains_iff.1 there)]

theorem size_le : m.size ≤ m.capacity := by
  rw [size_eq, h.keys]
  exact List.length_take_le _ _

theorem push : (m.push k v).2.Keeps (k :: us) fun l => if k = l then some v else last? l := by
  unfold RecencyMap.push
  split
  case h_1 former hv => exact h.promote (contains_of_peek hv)
  case h_2 hv =>
    have new := not_contains_of_peek hv
    split
    case isTrue free =>
      exact h.insert new (List.take_of_length_le (Nat.le_sub_one_of_lt free)).symm
    case isFalse full =>
      have full : m.entries.length = m.capacity := Nat.le_antisymm h.size_le (Nat.not_lt.1 full)
      exact h.insert new (full ▸ List.dropLast_eq_take)

-- A key that is set has its former value displaced, finds a free place, or takes that of another.
theorem push_cases :
    (∃ former, (m.push k v).1 = some (k, former) ∧ m.contains k ∧
      (m.push k v).2.size = m.size) ∨
    ((m.push k v).1 = none ∧ m.contains k = false ∧ (m.push k v).2.size = m.size + 1) ∨
    ∃ l w, (m.push k v).1 = some (l, w) ∧ l ≠ k ∧ m.contains k = false ∧
      (m.push k v).2.size = m.size := by
  unfold RecencyMap.push
  split
  case h_1 former hv =>
    have there := contains_of_peek hv
    exact .inl ⟨former, rfl, there, h.others_length there⟩
  case h_2 hv =>
    have new := not_contains_of_peek hv
    split
    case isTrue => exact .inr (.inl ⟨rfl, new, rfl⟩)
    case isFalse full =>
      have used : m.entries ≠ [] :=
        List.ne_nil_of_length_pos (Nat.lt_of_lt_of_le h.room (Nat.not_lt.1 full))
      have last := List.getLast_mem used
      refine .inr (.inr ⟨_, _, List.getLast?_eq_some_getLast used, fun hk => ?_, new, ?_⟩)
      · rw [Bool.eq_false_iff, Ne, RecencyMap.contains_iff] at new
        exact new (hk ▸ List.mem_map_of_mem last)
      · have := List.length_pos_of_mem last
        simp only [size, List.length_cons, List.length_dropLast]
        omega

theorem get : (m.get k).2.Keeps (if Recent m.capacity us k then k :: us else us) last? := by
  unfold RecencyMap.get
  split
  case h_1 v hv =>
    have there := contains_of_peek hv
    have same : (fun l => if k = l then some v else last? l) = last? := by
      funext l
      split
      case isTrue hl => rw [← hl, h.last_of_peek hv]
      case isFalse   => rfl
    rw [if_pos (h.contains_iff.1 there)]
    exact same ▸ h.promote there
  case h_2 hv =>
    rw [if_neg (h.contains_iff.not.1 (by simp [not_contains_of_peek hv]))]
    exact h

theorem size_get : (m.get k).2.size = m.size := by
  unfold RecencyMap.get
  split
  case h_1 v hv => exact h.others_length (contains_of_peek hv)
  case h_2      => rfl

end Keeps

end RecencyMap

namespace Cache

variable {κ ν : Type} [DecidableEq κ] {c : Cache κ ν} {k : κ} {v : ν} {call : Call κ ν}

-- Calls one by one. The counters are a layer over the map.

theorem capacity_run : (call.run c).capacity = c.capacity := by
  cases call
  case get      => rw [Call.run, toRecencyMap_get, RecencyMap.capacity_get]
  case put      => rw [Call.run, toRecencyMap_put, RecencyMap.capacity_push]
  case contains => rfl
  case clear    => rfl

theorem lookups_get : (c.get k).2.hits + (c.get k).2.misses = c.hits + c.misses + 1 := by
  unfold get
  split
  · exact Nat.add_right_comm ..
  · rfl

theorem lookups_put : (c.put k v).hits + (c.put k v).misses = c.hits + c.misses := by
  unfold put
  repeat' split
  all_goals rfl

theorem lookups_run : (call.run c).hits + (call.run c).misses =
    c.hits + c.misses + if call.isGet then 1 else 0 := by
  cases call
  case get      => exact lookups_get
  case put      => exact lookups_put
  case contains => rfl
  case clear    => rfl

theorem evictions_get : (c.get k).2.evictions = c.evictions := by
  unfold get
  split <;> rfl

-- Only a key that was not there evicts another or finds room.
theorem evictions_put {us : List κ} {last? : κ → Option ν} (h : c.toRecencyMap.Keeps us last?) :
    (c.put k v).evictions + (c.put k v).size =
      c.evictions + c.size + if c.contains k then 0 else 1 := by
  rw [toRecencyMap_put, put]
  rcases h.push_cases (k := k) (v := v) with
    ⟨former, answer, there, size⟩ | ⟨answer, new, size⟩ | ⟨l, w, answer, other, new, size⟩
  all_goals
    rcases hp : c.push k v with ⟨displaced, m⟩
    rw [hp] at answer size
    obtain rfl : displaced = _ := answer
  · simp [there, size]
  · simp [new, size, Nat.add_assoc]
  · simp [new, size, other, Nat.add_right_comm]

theorem keeps_run {calls : List (Call κ ν)}
    (h : c.toRecencyMap.Keeps (used c.capacity calls) (lastSet? · calls)) :
    (call.run c).toRecencyMap.Keeps (used c.capacity (call :: calls))
      (lastSet? · (call :: calls)) := by
  cases call
  case get k =>
    rw [Call.run, toRecencyMap_get]
    exact h.get
  case put k v =>
    have : (fun l => if k = l then some v else lastSet? l calls) =
        (lastSet? · (.put k v :: calls)) := by
      funext l
      simp only [lastSet?, List.findSome?_cons, Call.sets?]
      split
      all_goals split at * <;> simp_all
    rw [Call.run, toRecencyMap_put]
    exact this ▸ h.push
  case contains k => exact h
  case clear => exact ⟨h.room, List.take_nil.symm, nofun⟩

-- Whole histories.

variable (capacity : Nat) (calls : List (Call κ ν))

theorem capacity_after : (after capacity calls).capacity = max 1 capacity := by
  induction calls
  case nil => rfl
  case cons call calls hi => rw [after, capacity_run, hi]

theorem keeps_after : (after capacity calls).toRecencyMap.Keeps (used (max 1 capacity) calls)
    (lastSet? · calls) := by
  induction calls
  case nil => exact ⟨Nat.lt_of_lt_of_le Nat.one_pos (Nat.le_max_left ..), List.take_nil.symm, nofun⟩
  case cons call calls hi =>
    rw [← capacity_after capacity calls] at hi ⊢
    exact keeps_run hi

theorem lookups_after : (after capacity calls).hits + (after capacity calls).misses =
    calls.countP Call.isGet := by
  induction calls
  case nil => rfl
  case cons call calls hi => rw [after, lookups_run, hi, List.countP_cons]

-- What entered was evicted, dropped with all else, or is still there.
theorem evictions_after : (after capacity calls).evictions + dropped capacity calls +
    (after capacity calls).size = entered capacity calls := by
  induction calls
  case nil => rfl
  case cons call calls hi =>
    have h := keeps_after capacity calls
    cases call
    case get k =>
      simp only [after, Call.run, dropped, entered, evictions_get, toRecencyMap_get, h.size_get, hi]
    case put k v =>
      have := evictions_put (k := k) (v := v) h
      simp only [after, Call.run, dropped, entered]
      omega
    case contains k => exact hi
    case clear =>
      simpa [after, Call.run, dropped, entered, clear, RecencyMap.clear, RecencyMap.size,
        Nat.add_assoc] using hi

theorem told_by_calls (capacity : Nat) (calls : List (Call κ ν)) :
    let c := after capacity calls
    let room := max 1 capacity
    (∀ k, c.contains k ↔ Recent room (used room calls) k) ∧
    (∀ k, (c.get k).1.isSome = c.contains k) ∧
    (∀ k, (c.get k).1 = if Recent room (used room calls) k then lastSet? k calls else none) ∧
    c.size ≤ room ∧
    c.hits + c.misses = calls.countP Call.isGet ∧
    c.evictions + dropped capacity calls + c.size = entered capacity calls := by
  have h := keeps_after capacity calls
  have there {k : κ} := h.contains_iff (k := k)
  rw [capacity_after] at there
  refine ⟨fun k => there, fun k => by rw [get_fst, RecencyMap.contains], fun k => ?_,
    capacity_after capacity calls ▸ h.size_le, lookups_after capacity calls,
    evictions_after capacity calls⟩
  rw [get_fst]
  cases hv : (after capacity calls).peek k
  case none => rw [if_neg (there.not.1 (by simp [RecencyMap.contains, hv]))]
  case some v => rw [if_pos (there.1 (by simp [RecencyMap.contains, hv])), h.last_of_peek hv]

-- A key that was looked up in between is kept, and one that was used before it is not.
example : let c := after 2 [.put 3 'c', .get 1, .put 2 'b', .put 1 'a']
    c.contains 1 ∧ ¬ c.contains 2 ∧ c.contains 3 ∧ c.evictions = 1 := by decide

end PolicyTree.Cache
