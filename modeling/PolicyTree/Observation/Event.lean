import PolicyTree.Node

namespace PolicyTree

inductive EventKind where
  | nodeAdded | nodeRemoved | propertyAdded | propertyChanged | propertyRemoved
deriving DecidableEq, Repr

namespace EventKind

def all : List EventKind :=
  [nodeAdded, nodeRemoved, propertyAdded, propertyChanged, propertyRemoved]

def name : EventKind → String
  | nodeAdded => "NodeAdded"
  | nodeRemoved => "NodeRemoved"
  | propertyAdded => "PropertyAdded"
  | propertyChanged => "PropertyChanged"
  | propertyRemoved => "PropertyRemoved"

def ofName? (name : String) : Option EventKind := all.find? (·.name == name)

end EventKind

-- The path is that of the node or of the property, the node in either case the one that was added
-- or removed or that has the property. The parent types are the effective types of the parent of
-- the node, or of the node that has the property.
structure Event where
  kind        : EventKind
  path        : String
  node        : NodeId
  parentTypes : List String
deriving DecidableEq, Repr

structure EventFilter where
  kinds     : List EventKind
  root      : String
  isDeep    : Bool
  -- Empty for events below nodes of any type.
  nodeTypes : List String
deriving DecidableEq, Repr

namespace EventFilter

def inScope (f : EventFilter) (parent : String) : Bool :=
  if f.isDeep then Path.covers f.root parent else parent == f.root

def accepts (f : EventFilter) (e : Event) : Bool :=
  f.kinds.contains e.kind &&
  (Path.parent e.path).any f.inScope &&
  (f.nodeTypes.isEmpty || e.parentTypes.any f.nodeTypes.contains)

end EventFilter

end PolicyTree
