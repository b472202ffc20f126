import PolicyTree.Tree.Store

namespace PolicyTree

-- Finding nothing is an answer. Errors are for failures of the tree and for handles of nodes that
-- are gone.
structure TreeView where
  root          : Except TreeError NodeHandle
  resolve       : (path : String) → Except TreeError (Option NodeHandle)
  nodeById      : NodeId → Except TreeError (Option NodeHandle)
  child         : NodeHandle → (name : String) → Except TreeError (Option NodeHandle)
  children      : NodeHandle → Except TreeError (List NodeHandle)
  parent        : NodeHandle → Except TreeError (Option NodeHandle)
  nodeType      : NodeHandle → Except TreeError String
  isType        : NodeHandle → (type : String) → Except TreeError Bool
  property      : NodeHandle → (name : String) → Except TreeError (Option Value)
  propertyNames : NodeHandle → Except TreeError (List String)
  -- More than the number of nodes on any way up to the root.
  height        : Nat

def Store.view (s : Store) (types : NodeTypes) : TreeView where
  root          := s.getHandle s.root
  resolve path  := return (← s.resolve path).bind s.handle?
  nodeById id   := return s.handle? id
  child n name  := do
    discard <| s.get n.id
    return (s.child? n.id name).bind s.handle?
  children n    := do (← s.get n.id).children.mapM s.getHandle
  parent n      := do
    match (← s.get n.id).parent with
    | some parent => return some (← s.getHandle parent)
    | none => return none
  nodeType n    := return (← s.get n.id).primaryType
  isType n type := return type ∈ types.expand (← s.get n.id).types
  property n name := return (← s.get n.id).properties[name]?
  propertyNames n := return (← s.get n.id).properties.keys
  height        := s.nodes.size + 1

end PolicyTree
