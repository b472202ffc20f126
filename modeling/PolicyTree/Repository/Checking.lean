import PolicyTree.Repository.Basic

namespace PolicyTree.Repository

variable {α : Type}

def atWork (e : AclEvaluator) (work : EvaluatorM α) :
    StateM Repository (Except AccessError α × AclEvaluator) := do
  let s ← get
  let collector := (s.collectors.get? e.collector).getD .absent
  let (result, bench) := work.run.run ⟨e, collector⟩
  set { s with collectors := s.collectors.set e.collector bench.collector }
  return (result, bench.evaluator)

-- An evaluator that is gone is as good as closed.
def query (n : Nat) (everything : α) (readOnly : Except AccessError α) (work : EvaluatorM α) :
    RepositoryM AccessError α := do
  match (← get).evaluators.get? n with
  | none => throw (.notInitialized .evaluatorClosed)
  | some (.everything isClosed) =>
    requireOpen isClosed
    return everything
  | some (.readOnly isClosed) =>
    requireOpen isClosed
    readOnly
  | some (.acl e) =>
    let (result, e) ← atWork e work
    modify fun s => { s with evaluators := s.evaluators.set n (.acl e) }
    result

def grants (n : Nat) (path : String) (permissions : Permissions) :
    RepositoryM AccessError Bool := do
  let s ← get
  query n true (ReadOnly.grants s.view path permissions)
    (EvaluatorM.grants s.view s.registry path permissions)

def grantedPermissions (n : Nat) (path : String) : RepositoryM AccessError Permissions :=
  Permissions.singles.foldlM (fun granted (_, permission) =>
    return if ← grants n path permission then granted ∪ permission else granted) ∅

def privileges (n : Nat) (path : String) : RepositoryM AccessError PrivilegeBits := do
  let s ← get
  query n s.registry.allBits (ReadOnly.privileges s.view path)
    (EvaluatorM.privileges s.view s.registry path)

def privilegeSet (n : Nat) (path : String) : RepositoryM AccessError (List Privilege) := do
  let bits ← privileges n path
  return (← get).registry.privilegesFor bits

def hasPrivileges (n : Nat) (path : String) (required : List Privilege) :
    RepositoryM AccessError Bool := do
  return Privilege.bitsOf required ⊆ (← privileges n path)

def canRead (n : Nat) (path : String) (item : Option NodeId) : RepositoryM AccessError Bool := do
  let s ← get
  query n true (ReadOnly.grants s.view path .read) (EvaluatorM.canRead s.view s.registry path item)

-- Only evaluators that weigh entries have one to show.
def decision (n : Nat) (path : String) : RepositoryM AccessError (Option Decision) := do
  let s ← get
  query n none (return none) (some <$> EvaluatorM.decision s.view s.registry path)

end PolicyTree.Repository
