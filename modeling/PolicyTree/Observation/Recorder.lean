import PolicyTree.Observation.Dispatcher
import PolicyTree.Table

namespace PolicyTree

-- A recorder may have a subscription, known by name, that it cancels when it gets its first batch.
structure Recorder where
  unread  : List (List Event)
  cancels : Option String
  hasHeard : Bool

namespace Recorder

def hear (r : Recorder) (batch : List Event) : Recorder :=
  { r with unread := r.unread ++ [batch], hasHeard := true }

def cancelsNext (r : Recorder) : Option String := if r.hasHeard then none else r.cancels

end Recorder

structure Recorders where
  table : Table Recorder
  named : List (String × (Nat × SubscriptionId))

namespace Recorders

def empty : Recorders := ⟨.empty, []⟩

def find? (r : Recorders) (name : String) : Option (Nat × SubscriptionId) := r.named.lookup name

-- A recorder that had the name before goes on without.
def bind (r : Recorders) (name : String) (recorder : Nat) (id : SubscriptionId) : Recorders :=
  { r with named := (name, (recorder, id)) :: r.named.filter (·.1 ≠ name) }

def drain (r : Recorders) (recorder : Nat) : List (List Event) × Recorders :=
  match r.table.get? recorder with
  | some rec => (rec.unread, { r with table := r.table.set recorder { rec with unread := [] } })
  | none => ([], r)

end Recorders

end PolicyTree
