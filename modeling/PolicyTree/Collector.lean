import PolicyTree.Cache
import PolicyTree.Collection
import PolicyTree.Tree.Error

namespace PolicyTree

structure EntryKey where
  principals : String
  node       : NodeId
deriving DecidableEq, Repr

def EntryKey.of (principals : PrincipalSet) (node : NodeHandle) : EntryKey :=
  ⟨principals.signature, node.id⟩

-- Listeners are named by number. One whose number stands for nothing any more is dead, and it stays
-- on the list until the next change is passed on.
inductive ChangeListener where
  | evaluator (n : Nat)
  | recorder (n : Nat)
deriving DecidableEq, Repr

structure Collector where
  cache        : Cache EntryKey (List Entry)
  listeners    : List (Nat × ChangeListener)
  -- A word of 64 bits in the program, the same as long as fewer than 2 ^ 64 are given out.
  nextListener : Nat
  -- None once the collector is closed.
  subscription : Option SubscriptionId

namespace Collector

def new (capacity : Nat) (subscription : SubscriptionId) : Collector :=
  ⟨.empty capacity, [], 0, some subscription⟩

def absent : Collector := ⟨.empty 1, [], 0, none⟩

def isClosed (c : Collector) : Bool := c.subscription.isNone

-- Nothing is kept of a collection that failed.
def entries (tree : TreeView) (registry : Registry) (principals : PrincipalSet)
    (node : NodeHandle) : ExceptT AccessError (StateM Collector) (List Entry) := do
  let key := EntryKey.of principals node
  let (found, cache) := (← get).cache.get key
  modify fun c => { c with cache }
  if let some entries := found then return entries
  match collect tree registry principals node with
  | .ok entries =>
    modify fun c => { c with cache := c.cache.put key entries }
    return entries
  | .error e => throw e

def addListener (c : Collector) (l : ChangeListener) : Nat × Collector :=
  (c.nextListener,
    { c with
      listeners    := c.listeners ++ [(c.nextListener, l)]
      nextListener := c.nextListener + 1 })

def removeListener (c : Collector) (id : Nat) : Bool × Collector :=
  (c.listeners.any (·.1 = id), { c with listeners := c.listeners.filter (·.1 ≠ id) })

-- The listeners that are dead go as well.
def invalidate (c : Collector) (isAlive : ChangeListener → Bool) : Collector :=
  { c with cache := c.cache.clear, listeners := c.listeners.filter fun l => isAlive l.2 }

end Collector

end PolicyTree
