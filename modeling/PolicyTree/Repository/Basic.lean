import PolicyTree.Evaluator
import PolicyTree.Observation.Recorder
import PolicyTree.Policy.Editor
import PolicyTree.PolicyChange
import PolicyTree.Settings

namespace PolicyTree

-- Who gets the events of the repository.
inductive Listener where
  | recorder (n : Nat)
  | collector (n : Nat)
deriving DecidableEq, Repr

-- Who may ask the question keeps the evaluator in being.
structure Probe where
  evaluator : Nat
  path      : String

-- A change as it was heard, with what the probe found at that moment if there was one.
structure HeardChange where
  change : PolicyChange
  probe  : Option (Option Bool)

structure ChangeRecorder where
  probe  : Option Probe
  unread : List HeardChange

inductive ProviderState where
  | created
  | initialized (collector : Nat)
  | closed
deriving DecidableEq, Repr

structure Provider where
  settings : Settings
  state    : ProviderState

structure Repository where
  saved             : Saved
  registry          : Registry
  dispatcher        : Dispatcher Listener
  -- The next id that no node has had.
  nextId            : NodeId
  -- How reading the saved state, and subscribing to its events, misbehave.
  faults            : Faults
  observationFaults : Faults
  sessions          : Table Session
  recorders         : Recorders
  collectors        : Table Collector
  evaluators        : Table Evaluator
  -- Evaluators that are given up, and are there only for those who have a probe of them.
  givenUp           : List Nat
  changeRecorders   : Table ChangeRecorder
  providers         : Table Provider

-- After an error, what was done before it stays done.
abbrev RepositoryM (ε : Type) := ExceptT ε (StateM Repository)

instance : MonadLift (RepositoryM TreeError) (RepositoryM AccessError) :=
  ⟨fun work => work.adapt .tree⟩

namespace Repository

def rootType : String := "rep:root"

def initial (types : NodeTypes) : Repository where
  saved             := ⟨.initial ⟨0⟩ rootType, 0, types⟩
  registry          := .initial
  dispatcher        := .empty
  nextId            := ⟨1⟩
  faults            := .empty
  observationFaults := .empty
  sessions          := .empty
  recorders         := .empty
  collectors        := .empty
  evaluators        := .empty
  givenUp           := []
  changeRecorders   := .empty
  providers         := .empty

def view (s : Repository) : TreeView := (s.saved.store.view s.saved.types).withFaults s.faults

def session (s : Repository) (n : Nat) : Session := (s.sessions.get? n).getD .new

def sessionView (s : Repository) (n : Nat) : TreeView := (s.session n).view s.saved

variable {α ε : Type}

def login (faults : Faults) : StateM Repository Nat :=
  modifyGet fun s =>
    let (n, sessions) := s.sessions.add { Session.new with faults }
    (n, { s with sessions })

def inSession (n : Nat) (work : SessionM ε α) : RepositoryM ε α := do
  let s ← get
  let (result, desk) := work.run' s.saved ⟨s.session n, s.nextId⟩
  set { s with sessions := s.sessions.set n desk.session, nextId := desk.nextId }
  liftM result

def refresh (n : Nat) (keepChanges : Bool) : RepositoryM TreeError Unit := do
  (← get).session n |>.faults.check .refresh
  modify fun s => { s with sessions := s.sessions.modify n (·.refresh keepChanges) }

def strayId : StateM Repository NodeId :=
  modifyGet fun s => (s.nextId, { s with nextId := s.nextId.next })

end Repository

end PolicyTree
