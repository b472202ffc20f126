import PolicyTree.Tree.Error
import PolicyTree.Tree.NodeTypes
import PolicyTree.Value

namespace PolicyTree

structure Node where
  name        : String
  parent      : Option NodeId
  primaryType : String
  mixins      : List String
  properties  : Std.ExtTreeMap String Value
  -- In document order.
  children    : List NodeId
deriving DecidableEq

namespace Node

def new (name : String) (parent : Option NodeId) (primaryType : String) : Node :=
  ⟨name, parent, primaryType, [], ∅, []⟩

def types (n : Node) : List String := n.primaryType :: n.mixins

end Node

structure Store where
  nodes : Std.ExtTreeMap NodeId Node
  root  : NodeId
deriving DecidableEq

namespace Store

-- The pseudo property that stands for the mixins of a node.
def mixinProperty : String := "jcr:mixinTypes"

def initial (root : NodeId) (rootType : String) : Store :=
  ⟨(∅ : Std.ExtTreeMap NodeId Node).insert root (.new "" none rootType), root⟩

-- Reading.

def get (s : Store) (id : NodeId) : Except TreeError Node :=
  match s.nodes[id]? with
  | some node => .ok node
  | none => .error (.noNode id)

-- No way up is longer than there are nodes.
def lineage? (s : Store) (id : NodeId) : Option (List (NodeId × Node)) :=
  go s.nodes.size id
where
  go : Nat → NodeId → Option (List (NodeId × Node))
    | 0, _ => none
    | n + 1, id => do
      let node ← s.nodes[id]?
      match node.parent with
      | none => return [(id, node)]
      | some parent => return (id, node) :: (← go n parent)

def pathOf? (s : Store) (id : NodeId) : Option String := do
  let way ← s.lineage? id
  return "/" ++ "/".intercalate (way.dropLast.map (·.2.name)).reverse

def handle? (s : Store) (id : NodeId) : Option NodeHandle := (s.pathOf? id).map (⟨id, ·⟩)

def getHandle (s : Store) (id : NodeId) : Except TreeError NodeHandle :=
  match s.handle? id with
  | some handle => .ok handle
  | none => .error (.noNode id)

def hasName (s : Store) (name : String) (id : NodeId) : Bool :=
  s.nodes[id]?.any (·.name = name)

def child? (s : Store) (id : NodeId) (name : String) : Option NodeId := do
  (← s.nodes[id]?).children.find? (s.hasName name)

def resolve (s : Store) (path : String) : Except TreeError (Option NodeId) := do
  Path.validate path
  if path = Path.root then return some s.root
  return (Path.names path).foldlM s.child? s.root

def effectiveTypes (s : Store) (types : NodeTypes) (id : NodeId) : List String :=
  match s.nodes[id]? with
  | some node => types.expand node.types
  | none => []

-- Writing.

def addNode (s : Store) (id parent : NodeId) (name primaryType : String) :
    Except TreeError Store := do
  Path.validateName name
  discard <| s.get parent
  if (s.child? parent name).isSome then
    throw (.nodeExists (Path.join ((s.pathOf? parent).getD "") name))
  let append (node : Node) : Node := { node with children := node.children ++ [id] }
  return { s with nodes := (s.nodes.insert id (.new name parent primaryType)).modify parent append }

-- Takes out the nodes that are due and all that is below them: of every node that goes, the
-- children are due next.
def takeOut : (steps : Nat) → (due : List NodeId) → Std.ExtTreeMap NodeId Node →
    Std.ExtTreeMap NodeId Node
  | 0, _, nodes => nodes
  | _ + 1, [], nodes => nodes
  | steps + 1, id :: due, nodes =>
    match nodes[id]? with
    | some node => takeOut steps (node.children.reverse ++ due) (nodes.erase id)
    | none => takeOut steps due nodes

-- No node goes twice, so there are no more steps than children on all the lists, and one for `top`.
def without (s : Store) (top : NodeId) : Std.ExtTreeMap NodeId Node :=
  takeOut (1 + (s.nodes.toList.flatMap (·.2.children)).length) [top] s.nodes

-- It fails if the parent is gone with them, which is so in no tree.
def removeNode (s : Store) (id : NodeId) : Except TreeError Store := do
  let some parent := (← s.get id).parent | throw .rootRemoval
  let left : Store := { s with nodes := s.without id }
  discard <| left.get parent
  let forget (node : Node) : Node := { node with children := node.children.filter (· ≠ id) }
  return { left with nodes := left.nodes.modify parent forget }

def addMixin (s : Store) (id : NodeId) (mixin : String) : Except TreeError Store := do
  let node ← s.get id
  if mixin ∈ node.mixins then return s
  return { s with nodes := s.nodes.insert id { node with mixins := node.mixins ++ [mixin] } }

def setProperty (s : Store) (id : NodeId) (name : String) (value : Value) :
    Except TreeError Store := do
  Path.validateName name
  if name = mixinProperty then throw (.protectedProperty name)
  let node ← s.get id
  let properties := node.properties.insert name value
  return { s with nodes := s.nodes.insert id { node with properties } }

def removeProperty (s : Store) (id : NodeId) (name : String) : Except TreeError (Bool × Store) := do
  let node ← s.get id
  let properties := node.properties.erase name
  return (name ∈ node.properties,
    { s with nodes := s.nodes.insert id { node with properties } })

end Store

end PolicyTree
