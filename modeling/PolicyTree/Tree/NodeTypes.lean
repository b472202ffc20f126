import Std.Data.ExtTreeMap

namespace PolicyTree

-- A type may name any types as its supertypes, itself or unknown ones included.
structure NodeTypes where
  supertypes : Std.ExtTreeMap String (List String)
deriving DecidableEq

namespace NodeTypes

def empty : NodeTypes := ⟨∅⟩

-- In place of what was declared before.
def declare (t : NodeTypes) (type : String) (supers : List String) : NodeTypes :=
  ⟨t.supertypes.insert type supers⟩

def initial : NodeTypes :=
  (empty.declare "rep:GrantACE" ["rep:ACE"]).declare "rep:DenyACE" ["rep:ACE"]

def supers (t : NodeTypes) (type : String) : List String := t.supertypes[type]?.getD []

def links (t : NodeTypes) : Nat := (t.supertypes.toList.flatMap (·.2)).length

-- Where a walk through the declarations stands: the types that are still to be looked at, the next
-- one in front, and those that it has taken up.
structure Walk where
  pending : List String
  taken   : List String

namespace Walk

def start (types : List String) : Walk := ⟨types.reverse, []⟩

-- One pass of the walk, none where it ends. A type is taken up once, and its supertypes are looked
-- at before all that was pending.
def next (t : NodeTypes) : Walk → Option Walk
  | ⟨[], _⟩ => none
  | ⟨type :: pending, taken⟩ =>
    if type ∈ taken then some ⟨pending, taken⟩
    else some ⟨(t.supers type).reverse ++ pending, taken ++ [type]⟩

-- Where the walk stands at its end, or after that many passes.
def run (t : NodeTypes) : (passes : Nat) → Walk → Walk
  | 0, w => w
  | passes + 1, w =>
    match w.next t with
    | some w' => run t passes w'
    | none => w

end Walk

def expand (t : NodeTypes) (types : List String) : List String :=
  -- A pass looks at a type that was given, or at a supertype on account of the one type that it is
  -- declared for, so there are no more passes than that.
  ((Walk.start types).run t (types.length + t.links)).taken

end NodeTypes

end PolicyTree
