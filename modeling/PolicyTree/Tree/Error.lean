import PolicyTree.Node

namespace PolicyTree

structure SubscriptionId where
  value : Nat
deriving DecidableEq, Inhabited, Repr

inductive Call where
  | root | resolve | nodeById | child | children | parent | nodeType | isType | property
  | propertyNames | addNode | addMixin | setProperty | removeProperty | removeNode | save | refresh
  | subscribe | unsubscribe
deriving DecidableEq, Repr

namespace Call

def all : List Call := [
  root, resolve, nodeById, child, children, parent, nodeType, isType, property, propertyNames,
  addNode, addMixin, setProperty, removeProperty, removeNode, save, refresh, subscribe, unsubscribe]

def name : Call → String
  | root => "root"
  | resolve => "resolve"
  | nodeById => "node_by_id"
  | child => "get_child"
  | children => "get_children"
  | parent => "get_parent"
  | nodeType => "node_type_of"
  | isType => "is_type"
  | property => "get_property_value"
  | propertyNames => "property_names"
  | addNode => "add_node"
  | addMixin => "add_mixin"
  | setProperty => "set_property"
  | removeProperty => "remove_property"
  | removeNode => "remove_node"
  | save => "save"
  | refresh => "refresh"
  | subscribe => "subscribe"
  | unsubscribe => "unsubscribe"

def ofName? (name : String) : Option Call := all.find? (·.name == name)

end Call

inductive TreeError where
  | noNode (id : NodeId)
  | nodeExists (path : String)
  | outdated (base now : Nat)
  | unknownSubscription (id : SubscriptionId)
  | failing (call : Call)
  | rootRemoval
  | protectedProperty (name : String)
  | invalidPath (cause : Path.Error)
deriving DecidableEq, Repr

namespace TreeError

inductive Kind where
  | itemNotFound | itemExists | invalidItemState | constraintViolation | invalidPath
deriving DecidableEq, Repr

def kind : TreeError → Kind
  | noNode _ => .itemNotFound
  | nodeExists _ => .itemExists
  | outdated .. | unknownSubscription _ | failing _ => .invalidItemState
  | rootRemoval | protectedProperty _ => .constraintViolation
  | invalidPath _ => .invalidPath

def Kind.heading : Kind → String
  | itemNotFound => "Item not found"
  | itemExists => "Item already exists"
  | invalidItemState => "Invalid item state"
  | constraintViolation => "Constraint violation"
  | invalidPath => "Invalid path"

-- The cause in words; `label` says how a node is named.
def detail (label : NodeId → String) : TreeError → String
  | noNode id => "node " ++ label id
  | nodeExists path => path
  | outdated base now => s!"repository changed since revision {base} (now {now})"
  | unknownSubscription id => s!"unknown subscription SubscriptionId({id.value})"
  | failing call => "injected fault in " ++ call.name
  | rootRemoval => "the root node cannot be removed"
  | protectedProperty name => name ++ " is protected"
  | invalidPath cause => cause.message

def message (label : NodeId → String) (e : TreeError) : String :=
  e.kind.heading ++ ": " ++ e.detail label

end TreeError

-- Paths are checked on behalf of a tree.
instance : MonadLift (Except Path.Error) (Except TreeError) := ⟨fun x => x.mapError .invalidPath⟩

end PolicyTree
