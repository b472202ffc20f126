import PolicyTree.Tree.Change
import PolicyTree.Tree.Fault

namespace PolicyTree

structure Saved where
  store    : Store
  -- A word of 64 bits in the program, the same as long as there are fewer than 2 ^ 64 saves.
  revision : Nat
  types    : NodeTypes

structure WorkingCopy where
  store : Store
  base  : Nat

-- A session reads the saved state until it writes. Saving puts its working copy in place of the
-- saved state, provided that nobody else has saved since the copy was taken.
structure Session where
  working : Option WorkingCopy
  -- How the session misbehaves.
  faults  : Faults

namespace Session

def new : Session := ⟨none, .empty⟩

def isPending (s : Session) : Bool := s.working.isSome

def store (s : Session) (saved : Saved) : Store :=
  match s.working with
  | some copy => copy.store
  | none => saved.store

def view (s : Session) (saved : Saved) : TreeView :=
  ((s.store saved).view saved.types).withFaults s.faults

def commit (s : Session) (saved : Saved) : Except TreeError (List Event × Saved) :=
  match s.working with
  | none => .ok ([], saved)
  | some copy =>
    if saved.revision ≠ copy.base then .error (.outdated copy.base saved.revision)
    else
      .ok (saved.store.changes copy.store saved.types,
        { saved with store := copy.store, revision := saved.revision + 1 })

def refresh (s : Session) (keepChanges : Bool) : Session :=
  if keepChanges then s else { s with working := none }

end Session

-- What working in a session may change: the session itself, and the next node id that is free.
structure Desk where
  session : Session
  nextId  : NodeId

-- After an error, what was done before it stays done.
abbrev SessionM (ε : Type) := ReaderT Saved (ExceptT ε (StateM Desk))

namespace SessionM

variable {α ε : Type}

def run' (work : SessionM ε α) (saved : Saved) (desk : Desk) : Except ε α × Desk :=
  (ReaderT.run work saved).run.run desk

def ask (question : TreeView → Except ε α) : SessionM ε α := do
  match question ((← get).session.view (← read)) with
  | .ok answer => return answer
  | .error e => throw e

-- The first write takes a working copy. An error leaves the copy's content alone.
def write (call : Call) (change : Store → Except TreeError (α × Store)) : SessionM TreeError α := do
  let saved ← read
  let session := (← get).session
  if let .error e := session.faults.check call then throw e
  let copy := session.working.getD ⟨saved.store, saved.revision⟩
  match change copy.store with
  | .ok (answer, store) =>
    modify fun desk => { desk with session.working := some { copy with store } }
    return answer
  | .error e =>
    modify fun desk => { desk with session.working := some copy }
    throw e

def takeId : SessionM ε NodeId :=
  modifyGet fun desk => (desk.nextId, { desk with nextId := desk.nextId.next })

def addNode (parent : NodeHandle) (name primaryType : String) : SessionM TreeError NodeHandle := do
  let id ← takeId
  write .addNode fun store => do
    let store ← store.addNode id parent.id name primaryType
    return (← store.getHandle id, store)

def addMixin (node : NodeHandle) (mixin : String) : SessionM TreeError Unit :=
  write .addMixin fun store => return ((), ← store.addMixin node.id mixin)

def setProperty (node : NodeHandle) (name : String) (value : Value) : SessionM TreeError Unit :=
  write .setProperty fun store => return ((), ← store.setProperty node.id name value)

def removeProperty (node : NodeHandle) (name : String) : SessionM TreeError Bool :=
  write .removeProperty fun store => store.removeProperty node.id name

def removeNode (node : NodeHandle) : SessionM TreeError Unit :=
  write .removeNode fun store => return ((), ← store.removeNode node.id)

end SessionM

end PolicyTree
