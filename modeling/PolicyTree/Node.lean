import PolicyTree.Path

namespace PolicyTree

structure NodeId where
  value : Nat
deriving DecidableEq, Inhabited, Repr

namespace NodeId

instance : Ord NodeId := ⟨fun a b => compare a.value b.value⟩

instance : Std.TransOrd NodeId where
  eq_swap := Std.OrientedOrd.eq_swap (α := Nat)
  isLE_trans := Std.TransOrd.isLE_trans (α := Nat)

instance : Std.LawfulEqOrd NodeId where
  eq_of_compare {a b} h := by
    cases a; cases b
    exact congrArg NodeId.mk (Std.LawfulEqOrd.eq_of_compare h)

def next (id : NodeId) : NodeId := ⟨id.value + 1⟩

def text (id : NodeId) : String :=
  let digits := Text.Hex.padded 32 id.value
  let group (start length : Nat) := String.ofList ((digits.drop start).take length)
  "-".intercalate [group 0 8, group 8 4, group 12 4, group 16 4, group 20 12]

end NodeId

-- A node together with the path at which it was found.
structure NodeHandle where
  id   : NodeId
  path : String
deriving DecidableEq, Inhabited, Repr

namespace NodeHandle

def name (node : NodeHandle) : String := Path.name node.path

def isRoot (node : NodeHandle) : Bool := node.path == Path.root

end NodeHandle

end PolicyTree
