import PolicyTree.Sorting
import PolicyTree.Observation.Event
import PolicyTree.Tree.Store

namespace PolicyTree.Store

def removals (base next : Store) (types : NodeTypes) : List Event :=
  base.nodes.toList.filterMap fun (id, node) =>
    if id ∈ next.nodes then none
    else do
      let path ← base.pathOf? id
      let parent ← node.parent
      return ⟨.nodeRemoved, path, id, base.effectiveTypes types parent⟩

def additions (base next : Store) (types : NodeTypes) : List Event :=
  next.nodes.toList.filterMap fun (id, node) =>
    if id ∈ base.nodes then none
    else do
      let path ← next.pathOf? id
      let parent ← node.parent
      return ⟨.nodeAdded, path, id, next.effectiveTypes types parent⟩

-- What becomes of the pseudo property for mixins, which is there if there are mixins.
def mixinChange? (before after : List String) : Option EventKind :=
  if before = after then none
  else if before = [] then some .propertyAdded
  else if after = [] then some .propertyRemoved
  else some .propertyChanged

def propertyChange? (before after : Option Value) : Option EventKind :=
  match before, after with
  | none, none => none
  | none, some _ => some .propertyAdded
  | some _, none => some .propertyRemoved
  | some v, some w => if v = w then none else some .propertyChanged

def changedProperties (before after : Node) : List (EventKind × String) :=
  let gone := before.properties.keys.filter (· ∉ after.properties)
  ((mixinChange? before.mixins after.mixins).map (·, mixinProperty)).toList ++
  (after.properties.keys ++ gone).filterMap fun name =>
    (propertyChange? before.properties[name]? after.properties[name]?).map (·, name)

-- A node that was not there counts as one that had nothing.
def propertyEvents (base next : Store) (types : NodeTypes) : List Event :=
  next.nodes.toList.flatMap fun (id, node) =>
    match next.pathOf? id with
    | none => []
    | some path =>
      let before := base.nodes[id]?.getD (.new node.name node.parent node.primaryType)
      (changedProperties before node).map fun (kind, name) =>
        ⟨kind, Path.join path name, id, next.effectiveTypes types id⟩

-- Removals, then additions with every parent before its children, then changes of properties.
def changes (base next : Store) (types : NodeTypes) : List Event :=
  sortOn (·.path) (removals base next types) ++
  sortOn (Path.depth ·.path) (sortOn (·.path) (additions base next types)) ++
  sortOn (·.path) (propertyEvents base next types)

end PolicyTree.Store
