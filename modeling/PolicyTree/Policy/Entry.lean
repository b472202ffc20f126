import PolicyTree.Glob
import PolicyTree.Privilege.Registry
import PolicyTree.Value

namespace PolicyTree

abbrev Restrictions := Std.ExtTreeMap String Value

structure Entry where
  principal    : String
  -- By name, each once.
  privileges   : List Privilege
  isAllow      : Bool
  restrictions : Restrictions
  owner        : NodeHandle
deriving DecidableEq

-- A refused entry is an error of access control.
instance : MonadLift (Except EntryError) (Except AccessError) :=
  ⟨fun x => x.mapError .invalidEntry⟩

namespace Entry

-- Keeps the first of neighbours with the same name.
def dropRepeated : List Privilege → List Privilege
  | [] => []
  | p :: ps => match dropRepeated ps with
    | [] => [p]
    | q :: qs => if p.name = q.name then p :: qs else p :: q :: qs

def glob? (restrictions : Restrictions) : Except EntryError (Option String) :=
  match restrictions[Glob.restrictionName]? with
  | none => .ok none
  | some value =>
    match value.asString? with
    | none => .error (.notText Glob.restrictionName)
    | some glob => do
      Glob.validate glob
      return some glob

def make (principal : String) (privileges : List Privilege) (isAllow : Bool)
    (restrictions : Restrictions) (owner : NodeHandle) : Except EntryError Entry := do
  if principal = "" then throw .emptyPrincipal
  if privileges = [] then throw (.noPrivileges principal)
  if let some p := privileges.find? (·.isAbstract) then throw (.abstractPrivilege p.name)
  discard <| glob? restrictions
  return ⟨principal, dropRepeated (sortOn (·.name) privileges), isAllow, restrictions, owner⟩

def bits (e : Entry) : PrivilegeBits := Privilege.bitsOf e.privileges

def glob (e : Entry) : Glob :=
  ⟨e.owner.path, e.restrictions[Glob.restrictionName]?.bind Value.asString?⟩

def covers (e : Entry) (item : String) : Bool := e.glob.covers item

def isLocal (e : Entry) (node : NodeId) : Bool := e.owner.id = node

-- Neither whose policy an entry stands in nor how its privileges are named makes a difference.
def content (e : Entry) : String × PrivilegeBits × Bool × Restrictions :=
  (e.principal, e.bits, e.isAllow, e.restrictions)

def same (a b : Entry) : Bool := a.content = b.content

end Entry

end PolicyTree
