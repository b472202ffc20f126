import Mathlib.Data.List.Pairwise
import Mathlib.Tactic.Common
import PolicyTree.Proofs.Repository.Invalidation

namespace PolicyTree

variable {d d' : Dispatcher Listener} {named : List (String × Nat × SubscriptionId)}
  {collectors collectors' : Table Collector} {id : SubscriptionId} {n : Nat}

theorem Collector.isClosed_eq_false_iff {c : Collector} :
    c.isClosed = false ↔ ∃ id, c.subscription = some id := by
  rw [isClosed, Option.isNone_eq_false_iff, Option.isSome_iff_exists]

namespace Dispatcher

variable {sub : Subscription Listener}

theorem unsubscribe_eq_ok_iff : d.unsubscribe id = .ok d' ↔ d.subscriptions.any (·.id = id) ∧
    { d with subscriptions := d.subscriptions.filter (·.id ≠ id) } = d' := by
  unfold unsubscribe
  split <;> simp_all

theorem subscribe_eq_ok {filter : EventFilter} {l : Listener}
    (h : d.subscribe filter l = .ok (id, d')) : id = ⟨d.nextId⟩ ∧
      d' = ⟨d.subscriptions ++ [⟨⟨d.nextId⟩, filter, l⟩], d.nextId + 1⟩ := by
  unfold subscribe at h
  obtain ⟨_, _, h⟩ := bind_eq_ok_iff.1 h
  obtain ⟨rfl, rfl⟩ := Prod.mk.inj (Except.ok.inj h)
  exact ⟨rfl, rfl⟩

end Dispatcher

theorem Recorders.mem_of_find {r : Recorders} {name : String} (h : r.find? name = some (n, id)) :
    (name, n, id) ∈ r.named := by
  have ⟨l, l', hl, _⟩ := List.lookup_eq_some_iff.1 h
  exact hl ▸ List.mem_append_right _ List.mem_cons_self

-- Subscriptions have ids of their own, names stand for those of recorders, and collectors have one
-- each as long as they are open, and no other ever.
structure Subscribed (d : Dispatcher Listener) (named : List (String × Nat × SubscriptionId))
    (collectors : Table Collector) : Prop where
  below   : ∀ sub ∈ d.subscriptions, sub.id.value < d.nextId
  unique  : ∀ sub ∈ d.subscriptions, ∀ sub' ∈ d.subscriptions, sub.id = sub'.id → sub = sub'
  given   : ∀ x ∈ named, x.2.2.value < d.nextId
  named   : ∀ x ∈ named, ∀ sub ∈ d.subscriptions, sub.id = x.2.2 → ∃ n, sub.listener = .recorder n
  mem     : ∀ {c : Nat} {collector : Collector} {id : SubscriptionId},
    collectors.get? c = some collector → collector.subscription = some id →
      ⟨id, PolicyChange.filter, .collector c⟩ ∈ d.subscriptions
  number  : ∀ sub ∈ d.subscriptions, ∀ c, sub.listener = .collector c → c < collectors.next
  alone   : d.subscriptions.Pairwise fun sub sub' =>
    ∀ c, sub.listener = .collector c → sub'.listener ≠ .collector c

namespace Subscribed

theorem initial : Subscribed .empty [] .empty where
  below _ hm     := nomatch hm
  unique _ hm    := nomatch hm
  given _ hm     := nomatch hm
  named _ hm     := nomatch hm
  mem hc         := by simp [Table.empty, Table.get?] at hc
  number _ hm    := nomatch hm
  alone          := .nil

variable (h : Subscribed d named collectors)

include h

theorem follow (hc : ∀ {c collector'}, collectors'.get? c = some collector' →
    ∃ collector, collectors.get? c = some collector ∧
      ∀ id, collector'.subscription = some id → collector.subscription = some id)
    (next : collectors'.next = collectors.next := by rfl) :
    Subscribed d named collectors' :=
  { h with
    mem    := fun hc' hs => have ⟨_, hc, follows⟩ := hc hc'; h.mem hc (follows _ hs)
    number := next ▸ h.number }

-- A subscription that no open collector has may be cancelled.
theorem unsubscribe (hu : d.unsubscribe id = .ok d')
    (free : ∀ {c collector}, collectors.get? c = some collector →
      collector.subscription ≠ some id) :
    Subscribed d' named collectors := by
  obtain ⟨-, rfl⟩ := Dispatcher.unsubscribe_eq_ok_iff.1 hu
  have old {sub : Subscription Listener} (hm : sub ∈ d.subscriptions.filter (·.id ≠ id)) :=
    (List.mem_filter.1 hm).1
  refine ⟨fun sub hm => h.below sub (old hm),
    fun sub hm sub' hm' => h.unique sub (old hm) sub' (old hm'), h.given,
    fun x hx sub hm => h.named x hx sub (old hm), fun hc hs => ?_,
    fun sub hm => h.number sub (old hm), h.alone.filter _⟩
  refine List.mem_filter.2 ⟨h.mem hc hs, decide_eq_true fun heq => free hc ?_⟩
  exact heq ▸ hs

theorem not_named {name : String} (hm : (name, n, id) ∈ named) {c : Nat} {collector : Collector}
    (hc : collectors.get? c = some collector) :
    collector.subscription ≠ some id := by
  intro hs
  have ⟨_, hr⟩ := h.named _ hm _ (h.mem hc hs) rfl
  exact nomatch hr

theorem only {sub sub' : Subscription Listener} {c : Nat} (hm : sub ∈ d.subscriptions)
    (hm' : sub' ∈ d.subscriptions) (hc : sub.listener = .collector c)
    (hc' : sub'.listener = .collector c) : sub = sub' := by
  have : Std.Symm fun sub sub' : Subscription Listener =>
      ∀ c, sub.listener = .collector c → sub'.listener ≠ .collector c :=
    ⟨fun _ _ h c hl hl' => h c hl' hl⟩
  by_contra hne
  exact h.alone.forall hm hm' hne c hc hc'

-- A new subscription has an id that there was not before, and may be that of a new collector.
theorem grow (filter : EventFilter) (l : Listener) {next : Nat}
    (hnext : collectors.next ≤ next)
    (hl : ∀ c, l = .collector c → collectors.next ≤ c ∧ c < next) :
    Subscribed ⟨d.subscriptions ++ [⟨⟨d.nextId⟩, filter, l⟩], d.nextId + 1⟩ named
      ⟨collectors.items, next⟩ := by
  have cases {sub : Subscription Listener}
      (hm : sub ∈ d.subscriptions ++ [⟨⟨d.nextId⟩, filter, l⟩]) :
      sub ∈ d.subscriptions ∧ sub.id.value < d.nextId ∨ sub = ⟨⟨d.nextId⟩, filter, l⟩ :=
    (List.mem_append.1 hm).imp (fun hm => ⟨hm, h.below sub hm⟩) List.mem_singleton.1
  refine ⟨fun sub hm => ?_, fun sub hm sub' hm' heq => ?_,
    fun x hx => Nat.lt_succ_of_lt (h.given x hx), fun x hx sub hm heq => ?_,
    fun hc hs => List.mem_append_left _ (h.mem hc hs), fun sub hm c hc => ?_,
    List.pairwise_append.2 ⟨h.alone, List.pairwise_singleton .., ?_⟩⟩
  · rcases cases hm with ⟨_, hlt⟩ | rfl
    · exact Nat.lt_succ_of_lt hlt
    · exact Nat.lt_succ_self _
  · rcases cases hm with ⟨hm, hlt⟩ | rfl <;> rcases cases hm' with ⟨hm', hlt'⟩ | rfl
    · exact h.unique sub hm sub' hm' heq
    · exact absurd hlt (heq ▸ Nat.lt_irrefl _)
    · exact absurd hlt' (heq ▸ Nat.lt_irrefl _)
    · rfl
  · rcases cases hm with ⟨hm, _⟩ | rfl
    · exact h.named x hx sub hm heq
    · exact absurd (h.given x hx) (heq ▸ Nat.lt_irrefl _)
  · rcases cases hm with ⟨hm, _⟩ | rfl
    · exact Nat.lt_of_lt_of_le (h.number sub hm c hc) hnext
    · exact (hl c hc).2
  · intro sub hm sub' hm' c hc hc'
    obtain rfl := List.mem_singleton.1 hm'
    exact absurd (h.number sub hm c hc) (Nat.not_lt_of_le (hl c hc').1)

theorem opened {capacity : Nat} : Subscribed
    ⟨d.subscriptions ++ [⟨⟨d.nextId⟩, PolicyChange.filter, .collector collectors.next⟩],
      d.nextId + 1⟩
    named (collectors.add (.new capacity ⟨d.nextId⟩)).2 := by
  have grown := h.grow PolicyChange.filter (.collector collectors.next) (Nat.le_succ _)
    fun c hc => Listener.collector.inj hc ▸ ⟨Nat.le_refl _, Nat.lt_succ_self _⟩
  refine { grown with mem := fun hc hs => ?_ }
  rw [Table.get?_add] at hc
  split at hc
  case isFalse => exact grown.mem hc hs
  case isTrue hn =>
    obtain rfl := Option.some_inj.1 hc
    obtain rfl := Option.some_inj.1 hs
    exact hn ▸ List.mem_append_right _ (List.mem_singleton.2 rfl)

theorem observed {name : String} {filter : EventFilter}
    {named' : List (String × Nat × SubscriptionId)} (hsub : ∀ x ∈ named', x ∈ named) : Subscribed
    ⟨d.subscriptions ++ [⟨⟨d.nextId⟩, filter, .recorder n⟩], d.nextId + 1⟩
    ((name, n, ⟨d.nextId⟩) :: named') collectors := by
  have grown := h.grow filter (.recorder n) (Nat.le_refl _) nofun
  refine { grown with given := fun x hx => ?_, named := fun x hx sub hm heq => ?_ }
  · rcases List.mem_cons.1 hx with rfl | hx
    · exact Nat.lt_succ_self _
    · exact grown.given x (hsub x hx)
  · rcases List.mem_cons.1 hx with rfl | hx
    · rcases List.mem_append.1 hm with hm | hm
      · exact absurd (h.below sub hm) (heq ▸ Nat.lt_irrefl _)
      · exact ⟨n, (List.mem_singleton.1 hm) ▸ rfl⟩
    · exact grown.named x (hsub x hx) sub hm heq

end Subscribed

namespace Repository

variable {s : Repository}

def IsOpen (s : Repository) (c : Nat) : Prop :=
  ∃ collector, s.collectors.get? c = some collector ∧ collector.isClosed = false

instance {c : Nat} : Decidable (s.IsOpen c) :=
  decidable_of_iff ((s.collectors.get? c).any fun collector => collector.isClosed = false)
    (by simp [IsOpen, Option.any_eq_true])

theorem listens_of_open {c : Nat} (h : Subscribed s.dispatcher s.recorders.named s.collectors)
    (hc : s.IsOpen c) : s.Listens c := by
  obtain ⟨collector, hc, isOpen⟩ := hc
  have ⟨id, hid⟩ := Collector.isClosed_eq_false_iff.1 isOpen
  exact ⟨collector, id, hc, hid, h.mem hc hid⟩

end Repository

end PolicyTree
