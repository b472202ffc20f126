import PolicyTree.Decision
import PolicyTree.Policy.Storage
import PolicyTree.Principal

namespace PolicyTree

-- Properties, and items that are not saved, have no node of their own.
def locate (tree : TreeView) (path : String) : Except AccessError NodeHandle :=
  go (Path.upward path)
where
  go : List String → Except AccessError NodeHandle
    | [] => .error (.itemNotFound (.noAncestor path))
    | p :: above => do
      match ← tree.resolve p with
      | some node => return node
      | none => go above

def ownerAbove (tree : TreeView) : Nat → NodeHandle → Except AccessError NodeHandle
  | 0, node => .ok node
  | levels + 1, node => do
    let some parent ← tree.parent node | throw (.itemNotFound (.noOwner node.path))
    ownerAbove tree levels parent

-- A policy is governed by its owner, and so are its entries.
def governing (tree : TreeView) (node : NodeHandle) : Except AccessError (NodeHandle × Bool) := do
  if ← tree.isType node Policy.listType then return (← ownerAbove tree 1 node, true)
  if ← tree.isType node Policy.entryType then return (← ownerAbove tree 2 node, true)
  return (node, false)

namespace Collection

def level (tree : TreeView) (registry : Registry) (principals : PrincipalSet) (node : NodeHandle) :
    Except AccessError (List Entry) := do
  match ← Policy.load tree registry node with
  | some policy => return policy.entries.filter fun e => principals.contains e.principal
  | none => return []

def levels (tree : TreeView) (registry : Registry) (principals : PrincipalSet) (node : NodeHandle) :
    Except AccessError (List (List Entry)) :=
  go tree.height node
where
  go : Nat → NodeHandle → Except AccessError (List (List Entry))
    | 0, _ => return []
    | n + 1, node => do
      let own ← level tree registry principals node
      match ← tree.parent node with
      | some parent => return own :: (← go n parent)
      | none => return [own]

def byPrincipal (principals : PrincipalSet) (levels : List (List Entry)) : List Entry :=
  principals.names.flatMap fun name => levels.flatMap (·.filter (·.principal = name))

end Collection

-- Principal by principal, and for each from the node up to the root.
def collect (tree : TreeView) (registry : Registry) (principals : PrincipalSet)
    (node : NodeHandle) : Except AccessError (List Entry) :=
  return Collection.byPrincipal principals (← Collection.levels tree registry principals node)

end PolicyTree
