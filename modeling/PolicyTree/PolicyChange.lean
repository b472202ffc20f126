import PolicyTree.Observation.Event
import PolicyTree.Policy.Storage
import PolicyTree.Text.Flags

namespace PolicyTree

abbrev Modifications := FlagSet 3

namespace Modifications

def added    : Modifications := .single 0
def modified : Modifications := .single 1
def removed  : Modifications := .single 2

def table : List (String × Modifications) :=
  [("POLICY_ADDED", added), ("POLICY_MODIFIED", modified), ("POLICY_REMOVED", removed)]

end Modifications

abbrev PolicyChange := Std.ExtTreeMap String Modifications

namespace PolicyChange

def record (c : PolicyChange) (owner : String) (m : Modifications) : PolicyChange :=
  c.alter owner fun former => some (former.getD ∅ ∪ m)

-- A new policy, or a new entry in one.
def ofAddition (tree : TreeView) (e : Event) :
    Except TreeError (Option (String × Modifications)) := do
  let some node ← tree.nodeById e.node | return none
  if ← tree.isType node Policy.listType then return (Path.parent e.path).map (·, .added)
  if ← tree.isType node Policy.entryType then return (Path.ancestor e.path 2).map (·, .modified)
  return none

-- The node that was removed is gone, so its name and its parent have to tell what it was.
def ofRemoval (tree : TreeView) (e : Event) :
    Except TreeError (Option (String × Modifications)) := do
  if Path.name e.path = Policy.nodeName then return (Path.parent e.path).map (·, .removed)
  let some parent := Path.parent e.path | return none
  let some policy ← tree.resolve parent | return none
  if ← tree.isType policy Policy.listType then return (Path.ancestor e.path 2).map (·, .modified)
  return none

-- Properties of entries are the principal, the privileges and the restrictions.
def ofProperty (e : Event) : Option (String × Modifications) :=
  if e.parentTypes.contains Policy.entryType then (Path.ancestor e.path 3).map (·, .modified)
  else none

def ofEvent (tree : TreeView) (e : Event) : Except TreeError (Option (String × Modifications)) :=
  match e.kind with
  | .nodeAdded => ofAddition tree e
  | .nodeRemoved => ofRemoval tree e
  | .propertyAdded | .propertyChanged | .propertyRemoved => .ok (ofProperty e)

-- Events that cannot be looked into are passed over.
def ofEvents (tree : TreeView) (events : List Event) : PolicyChange :=
  events.foldl (fun c e =>
    match ofEvent tree e with
    | .ok (some (owner, m)) => c.record owner m
    | .ok none | .error _ => c) ∅

def filter : EventFilter where
  kinds     := EventKind.all
  root      := Path.root
  isDeep    := true
  nodeTypes := [Policy.mixin, Policy.listType, Policy.entryType]

end PolicyChange

end PolicyTree
