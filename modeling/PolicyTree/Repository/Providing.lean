import PolicyTree.Repository.Observing

namespace PolicyTree.Repository

def addProvider (settings : Settings) : StateM Repository Nat :=
  modifyGet fun s =>
    let (n, providers) := s.providers.add ⟨settings, .created⟩
    (n, { s with providers })

def provider (s : Repository) (n : Nat) : Provider := (s.providers.get? n).getD ⟨.initial, .closed⟩

def allowAtRoot (p : Policy) (principal privilege : String) : RepositoryM AccessError Policy := do
  let privileges ← (← get).registry.getAll [privilege]
  return p.add (← Entry.make principal privileges true ∅ p.owner)

-- Administrators may do everything, if there are any, and everyone may read.
def installPolicy (settings : Settings) (session : Nat) (known : List String) :
    RepositoryM AccessError Unit := do
  let some p ← inSession session (Editor.applicablePolicy Path.root)
    | throw (.policy .rootHasPolicy)
  let p ← if known.contains settings.administrators then
      allowAtRoot p settings.administrators Privilege.allName
    else pure p
  let p ← allowAtRoot p settings.everyone Privilege.readName
  inSession session (Editor.setPolicy Path.root p)
  save session

-- If the policy cannot be installed, what was written of it is dropped, and that is no error.
def ensureRootPolicy (settings : Settings) (session : Nat) (known : List String) :
    RepositoryM AccessError Unit := do
  let tree := (← get).sessionView session
  let root ← tree.root
  let policy ← Policy.node? tree root
  if policy.isNone then
    try installPolicy settings session known
    catch _ =>
      try refresh session false
      catch _ => pure ()

-- The names of the principals that there are decide who gets an entry at the root.
def initProvider (n session : Nat) (known : List String) : RepositoryM AccessError Unit := do
  let p := (← get).provider n
  match p.state with
  | .initialized _ => throw (.policy .alreadyInitialized)
  | .closed => throw (.notInitialized .providerClosed)
  | .created => pure ()
  if !p.settings.omitDefaultPolicy then ensureRootPolicy p.settings session known
  let collector ← openCollector p.settings.entriesCapacity
  modify fun s =>
    { s with providers := s.providers.set n { p with state := .initialized collector } }

def providerCollector (n : Nat) : RepositoryM AccessError Nat := do
  match ((← get).provider n).state with
  | .initialized collector => return collector
  | .created => throw (.notInitialized .providerNotInitialized)
  | .closed => throw (.notInitialized .providerClosed)

-- The evaluator is of the simplest kind that answers for the principals.
def compile (n : Nat) (principals : PrincipalSet) : RepositoryM AccessError Nat := do
  let collector ← providerCollector n
  let settings := ((← get).provider n).settings
  if principals.isPrivileged then addEvaluator (.everything false)
  else if principals.isEveryone settings.everyone then addEvaluator (.readOnly false)
  else
    openEvaluator
      (.detached principals collector settings.resultCapacity settings.readCapacity)

-- Entries decide even for nobody but everyone.
def canAccessRoot (n : Nat) (principals : PrincipalSet) : RepositoryM AccessError Bool := do
  let collector ← providerCollector n
  if principals.isPrivileged then return true
  let s ← get
  let (result, _) ← atWork (.detached principals collector 1 1)
    (EvaluatorM.grants s.view s.registry Path.root .read)
  result

def closeProvider (n : Nat) : RepositoryM AccessError Unit := do
  let p := (← get).provider n
  modify fun s => { s with providers := s.providers.set n { p with state := .closed } }
  if let .initialized collector := p.state then closeCollector collector

end PolicyTree.Repository
