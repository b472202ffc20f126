import PolicyTree.Observation.Event
import PolicyTree.Tree.Error

namespace PolicyTree

structure Subscription (ℓ : Type) where
  id       : SubscriptionId
  filter   : EventFilter
  listener : ℓ

structure Dispatcher (ℓ : Type) where
  subscriptions : List (Subscription ℓ)
  -- A word of 64 bits in the program, the same as long as fewer than 2 ^ 64 are given out.
  nextId        : Nat

namespace Dispatcher

variable {ℓ : Type}

def empty : Dispatcher ℓ := ⟨[], 0⟩

def count (d : Dispatcher ℓ) : Nat := d.subscriptions.length

def subscribe (d : Dispatcher ℓ) (filter : EventFilter) (listener : ℓ) :
    Except TreeError (SubscriptionId × Dispatcher ℓ) := do
  Path.validate filter.root
  let id : SubscriptionId := ⟨d.nextId⟩
  return (id, ⟨d.subscriptions ++ [⟨id, filter, listener⟩], d.nextId + 1⟩)

def unsubscribe (d : Dispatcher ℓ) (id : SubscriptionId) : Except TreeError (Dispatcher ℓ) :=
  if d.subscriptions.any (·.id = id) then
    .ok { d with subscriptions := d.subscriptions.filter (·.id ≠ id) }
  else
    .error (.unknownSubscription id)

-- The batches are settled before any listener hears of them, so what listeners do changes nothing
-- about who else gets one.
def deliveries (d : Dispatcher ℓ) (events : List Event) : List (ℓ × List Event) :=
  d.subscriptions.filterMap fun s =>
    match events.filter s.filter.accepts with
    | [] => none
    | batch => some (s.listener, batch)

end Dispatcher

end PolicyTree
