import PolicyTree.Repository.Checking

namespace PolicyTree.Repository

-- Changes of policies.

def isAlive (s : Repository) : ChangeListener → Bool
  | .evaluator n => s.evaluators.contains n
  | .recorder n => s.changeRecorders.contains n

def Probe.ask (p : Probe) : StateM Repository (Option Bool) := do
  match ← (grants p.evaluator p.path .read).run with
  | .ok isGranted => return some isGranted
  | .error _ => return none

def notify (change : PolicyChange) : ChangeListener → StateM Repository Unit
  | .evaluator n =>
    modify fun s => { s with evaluators := s.evaluators.modify n fun
      | .acl e => .acl e.forget
      | other => other }
  | .recorder n => do
    let some r := (← get).changeRecorders.get? n | return
    let probe ← match r.probe with
      | some p => some <$> Probe.ask p
      | none => pure none
    let keep (r : ChangeRecorder) := { r with unread := r.unread ++ [⟨change, probe⟩] }
    modify fun s => { s with changeRecorders := s.changeRecorders.modify n keep }

-- If policies have changed the collector forgets its entries before anybody hears of it.
def hear (n : Nat) (events : List Event) : StateM Repository Unit := do
  let s ← get
  let change := PolicyChange.ofEvents s.view events
  if change.isEmpty then return
  let some collector := s.collectors.get? n | return
  let collector := collector.invalidate s.isAlive
  set { s with collectors := s.collectors.set n collector }
  collector.listeners.forM fun l => notify change l.2

-- Events.

-- A recorder keeps a batch before it cancels anything.
def deliver : Listener × List Event → StateM Repository Unit
  | (.collector n, batch) => hear n batch
  | (.recorder n, batch) => do
    let some r := (← get).recorders.table.get? n | return
    modify fun s =>
      { s with recorders := { s.recorders with table := s.recorders.table.set n (r.hear batch) } }
    let some (_, id) := r.cancelsNext.bind (← get).recorders.find? | return
    if let .ok dispatcher := (← get).dispatcher.unsubscribe id then
      modify fun s => { s with dispatcher }

def dispatch (events : List Event) : StateM Repository Unit := do
  ((← get).dispatcher.deliveries events).forM deliver

def observe (name : String) (filter : EventFilter) (cancels : Option String) :
    RepositoryM TreeError Unit := do
  let s ← get
  let (n, table) := s.recorders.table.add ⟨[], cancels, false⟩
  let (id, dispatcher) ← s.dispatcher.subscribe filter (.recorder n)
  set { s with dispatcher, recorders := { s.recorders with table }.bind name n id }

def unsubscribe (id : SubscriptionId) : RepositoryM TreeError Unit := do
  let dispatcher ← (← get).dispatcher.unsubscribe id
  modify fun s => { s with dispatcher }

-- Saving.

def save (n : Nat) : RepositoryM TreeError Unit := do
  let s ← get
  let session := s.session n
  session.faults.check .save
  let (events, saved) ← session.commit s.saved
  set { s with saved, sessions := s.sessions.set n { session with working := none } }
  dispatch events

-- Collectors.

def openCollector (capacity : Nat) : RepositoryM TreeError Nat := do
  let s ← get
  s.observationFaults.check .subscribe
  let (id, dispatcher) ← s.dispatcher.subscribe PolicyChange.filter (.collector s.collectors.next)
  let (n, collectors) := s.collectors.add (.new capacity id)
  set { s with dispatcher, collectors }
  return n

-- A collector counts as closed even if its subscription cannot be cancelled.
def closeCollector (n : Nat) : RepositoryM TreeError Unit := do
  let s ← get
  let some id := (s.collectors.get? n).bind (·.subscription) | return
  set { s with collectors := s.collectors.modify n ({ · with subscription := none }) }
  s.observationFaults.check .unsubscribe
  unsubscribe id

def collectedEntries (n : Nat) (principals : PrincipalSet) (node : NodeHandle) :
    RepositoryM AccessError (List Entry) := do
  let s ← get
  let collector := (s.collectors.get? n).getD .absent
  let (result, collector) :=
    (Collector.entries s.view s.registry principals node).run.run collector
  set { s with collectors := s.collectors.set n collector }
  result

def addListener (n : Nat) (l : ChangeListener) : StateM Repository Nat :=
  modifyGet fun s =>
    let (id, collector) := ((s.collectors.get? n).getD .absent).addListener l
    (id, { s with collectors := s.collectors.set n collector })

def removeListener (n id : Nat) : StateM Repository Bool :=
  modifyGet fun s =>
    let (found, collector) := ((s.collectors.get? n).getD .absent).removeListener id
    (found, { s with collectors := s.collectors.set n collector })

def listen (n : Nat) (probe : Option Probe) : StateM Repository (Nat × Nat) := do
  let (r, changeRecorders) := (← get).changeRecorders.add ⟨probe, []⟩
  modify fun s => { s with changeRecorders }
  return (r, ← addListener n (.recorder r))

-- Evaluators.

def addEvaluator (e : Evaluator) : StateM Repository Nat :=
  modifyGet fun s =>
    let (n, evaluators) := s.evaluators.add e
    (n, { s with evaluators })

def openEvaluator (e : AclEvaluator) : StateM Repository Nat := do
  let n := (← get).evaluators.next
  let id ← addListener e.collector (.evaluator n)
  addEvaluator (.acl { e with listener := some id })

def closeEvaluator (n : Nat) : StateM Repository Unit := do
  match (← get).evaluators.get? n with
  | none => return
  | some (.everything _) => put (.everything true)
  | some (.readOnly _) => put (.readOnly true)
  | some (.acl e) =>
    if e.isClosed then return
    if let some id := e.listener then discard <| removeListener e.collector id
    put (.acl e.close)
where
  put (e : Evaluator) : StateM Repository Unit :=
    modify fun s => { s with evaluators := s.evaluators.set n e }

-- Giving up.

def isProbed (s : Repository) (n : Nat) : Bool :=
  s.changeRecorders.values.any fun r => r.probe.any (·.evaluator = n)

-- Takes away the evaluators that are given up and that nobody has a probe of any more.
def sweep (s : Repository) : Repository :=
  let (probed, gone) := s.givenUp.partition s.isProbed
  { s with evaluators := gone.foldl .erase s.evaluators, givenUp := probed }

def dropEvaluator (n : Nat) : StateM Repository Unit :=
  modify fun s => { s with givenUp := n :: s.givenUp }.sweep

def dropChangeRecorder (n : Nat) : StateM Repository Unit :=
  modify fun s => { s with changeRecorders := s.changeRecorders.erase n }.sweep

end PolicyTree.Repository
