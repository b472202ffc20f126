import PolicyTree.Collector

namespace PolicyTree

structure AclEvaluator where
  principals : PrincipalSet
  -- The collector that it gets entries from, and what it is registered as with it.
  collector  : Nat
  listener   : Option Nat
  decisions  : Cache String Decision
  reads      : Cache NodeId Bool
  isClosed   : Bool

inductive Evaluator where
  -- For those who are not subject to access control.
  | everything (isClosed : Bool)
  -- For nobody but everyone.
  | readOnly (isClosed : Bool)
  | acl (e : AclEvaluator)

def requireOpen (isClosed : Bool) : Except AccessError Unit :=
  if isClosed then .error (.notInitialized .evaluatorClosed) else .ok ()

namespace AclEvaluator

def detached (principals : PrincipalSet) (collector resultCapacity readCapacity : Nat) :
    AclEvaluator where
  principals := principals
  collector  := collector
  listener   := none
  decisions  := .empty resultCapacity
  reads      := .empty readCapacity
  isClosed   := false

def forget (e : AclEvaluator) : AclEvaluator :=
  { e with decisions := e.decisions.clear, reads := e.reads.clear }

def close (e : AclEvaluator) : AclEvaluator := { e.forget with listener := none, isClosed := true }

end AclEvaluator

structure Bench where
  evaluator : AclEvaluator
  collector : Collector

abbrev EvaluatorM := ExceptT AccessError (StateM Bench)

namespace EvaluatorM

variable (tree : TreeView) (registry : Registry)

def entries (node : NodeHandle) : EvaluatorM (List Entry) := do
  let bench ← get
  let (entries, collector) :=
    (Collector.entries tree registry bench.evaluator.principals node).run.run bench.collector
  set { bench with collector }
  entries

def decide (path : String) : EvaluatorM Decision := do
  let (node, isPolicyItem) ← governing tree (← locate tree path)
  return evaluate (← entries tree registry node) ⟨path, node.id, isPolicyItem⟩

def decision (path : String) : EvaluatorM Decision := do
  requireOpen (← get).evaluator.isClosed
  let (found, decisions) := (← get).evaluator.decisions.get path
  modify fun b => { b with evaluator := { b.evaluator with decisions } }
  if let some d := found then return d
  let d ← decide tree registry path
  modify fun b => { b with
    evaluator := { b.evaluator with decisions := b.evaluator.decisions.put path d } }
  return d

def grants (path : String) (permissions : Permissions) : EvaluatorM Bool :=
  return (← decision tree registry path).grants permissions

def privileges (path : String) : EvaluatorM PrivilegeBits :=
  return (← decision tree registry path).allowPrivileges

-- The item itself where that is a node, else the closest one to the path.
def readTarget (path : String) (item : Option NodeId) : Except AccessError NodeHandle := do
  if let some id := item then
    if let some node ← tree.nodeById id then return node
  locate tree path

-- Properties share the answer of their node.
def canRead (path : String) (item : Option NodeId) : EvaluatorM Bool := do
  requireOpen (← get).evaluator.isClosed
  let node ← readTarget tree path item
  let (found, reads) := (← get).evaluator.reads.get node.id
  modify fun b => { b with evaluator := { b.evaluator with reads } }
  if let some granted := found then return granted
  let granted ← grants tree registry node.path .read
  modify fun b => { b with
    evaluator := { b.evaluator with reads := b.evaluator.reads.put node.id granted } }
  return granted

end EvaluatorM

-- Those who are nobody but everyone may read whatever is not access control content.

namespace ReadOnly

variable (tree : TreeView)

def isContent (path : String) : Except AccessError Bool := do
  Policy.isContent tree (← locate tree path)

def grants (path : String) (permissions : Permissions) : Except AccessError Bool := do
  if permissions ≠ .read then return false
  return !(← isContent tree path)

def privileges (path : String) : Except AccessError PrivilegeBits := do
  return if ← isContent tree path then ∅ else .read

end ReadOnly

end PolicyTree
