import PolicyTree.Policy.Storage

namespace PolicyTree.Editor

-- Access control content itself has no policy.
def target (tree : TreeView) (path : String) : Except AccessError NodeHandle := do
  let some node ← tree.resolve path | throw (.itemNotFound (.nothingAt path))
  if ← Policy.isContent tree node then throw (.policy (.policyContent path))
  return node

def getPolicy (registry : Registry) (path : String) : SessionM AccessError (Option Policy) :=
  SessionM.ask fun tree => do Policy.load tree registry (← target tree path)

def applicablePolicy (path : String) : SessionM AccessError (Option Policy) :=
  SessionM.ask fun tree => do
    let node ← target tree path
    return if (← Policy.node? tree node).isSome then none else some (.empty node)

def setPolicy (path : String) (p : Policy) : SessionM AccessError Unit := do
  let node ← SessionM.ask (target · path)
  if p.owner.path ≠ node.path then throw (.policy (.foreignPolicy p.owner.path path))
  p.store

def removePolicy (path : String) : SessionM AccessError Unit := do
  let policy ← SessionM.ask fun tree => do
    let some policy ← Policy.node? tree (← target tree path) | throw (.policy (.noPolicy path))
    return policy
  SessionM.removeNode policy

end PolicyTree.Editor
