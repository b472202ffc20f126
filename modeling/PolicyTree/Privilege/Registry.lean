import Std.Data.ExtTreeMap
import PolicyTree.Sorting
import PolicyTree.Privilege.Bits
import PolicyTree.Access.Error

namespace PolicyTree

-- A concrete privilege owns one bit, an aggregate has the bits that its members had when it was
-- registered, and an abstract privilege has none.
structure Privilege where
  name       : String
  bits       : PrivilegeBits
  isAbstract : Bool
  members    : List String
deriving DecidableEq, Inhabited, Repr

namespace Privilege

def allName : String := "jcr:all"

def readName : String := "jcr:read"

def writeName : String := "jcr:write"

def isAggregate (p : Privilege) : Bool := !p.members.isEmpty

def isConcrete (p : Privilege) : Bool := !p.isAbstract && !p.isAggregate

def concrete (name : String) (bits : PrivilegeBits) : Privilege := ⟨name, bits, false, []⟩

def builtin : List Privilege := [
  concrete readName .read,
  concrete "jcr:modifyProperties" .modifyProperties,
  concrete "jcr:addChildNodes" .addChildNodes,
  concrete "jcr:removeNode" .removeNode,
  concrete "jcr:removeChildNodes" .removeChildNodes,
  concrete "jcr:readAccessControl" .readPolicy,
  concrete "jcr:modifyAccessControl" .modifyPolicy,
  concrete "jcr:nodeTypeManagement" .manageNodeTypes,
  concrete "jcr:versionManagement" .manageVersions,
  concrete "jcr:lockManagement" .manageLocks,
  concrete "jcr:lifecycleManagement" .manageLifecycle,
  concrete "jcr:retentionManagement" .manageRetention]

def writeMembers : List String :=
  ["jcr:modifyProperties", "jcr:addChildNodes", "jcr:removeNode", "jcr:removeChildNodes"]

def write : Privilege := ⟨writeName, .write, false, writeMembers⟩

-- The aggregate of all built-in privileges, with the former in place of its members.
def all : Privilege :=
  ⟨allName, .builtin, false,
    (builtin.map (·.name)).filter (· ∉ writeMembers) ++ [writeName]⟩

def bitsOf (privileges : List Privilege) : PrivilegeBits := .unions (privileges.map (·.bits))

end Privilege

structure Registry where
  privileges : Std.ExtTreeMap String Privilege
  nextBit    : Nat
deriving DecidableEq

namespace Registry

def initial : Registry where
  privileges := .ofList <|
    (Privilege.builtin ++ [Privilege.write, Privilege.all]).map fun p => (p.name, p)
  nextBit    := PrivilegeBits.firstCustom

def get (r : Registry) (name : String) : Except AccessError Privilege :=
  match r.privileges[name]? with
  | some p => .ok p
  | none => .error (.unknownPrivilege name)

-- The first name that is unknown decides the error.
def getAll (r : Registry) (names : List String) : Except AccessError (List Privilege) :=
  names.mapM r.get

def toList (r : Registry) : List Privilege := r.privileges.values

def allBits (r : Registry) : PrivilegeBits :=
  match r.privileges[Privilege.allName]? with
  | some all => all.bits
  | none => .builtin

def prepare (r : Registry) (name : String) (isAbstract : Bool) (members : List String) :
    Except AccessError Privilege :=
  if name = "" then .error (.invalidPrivilege .emptyName)
  else if name ∈ r.privileges then .error (.invalidPrivilege (.alreadyRegistered name))
  else if isAbstract then
    if members = [] then .ok ⟨name, ∅, true, []⟩
    else .error (.invalidPrivilege (.abstractAggregate name))
  else if members = [] then
    if r.nextBit < 64 then .ok ⟨name, .single r.nextBit, false, []⟩
    else .error (.invalidPrivilege .noBitsLeft)
  else do
    let bits := Privilege.bitsOf (← r.getAll members)
    if bits = ∅ then .error (.invalidPrivilege (.emptyAggregate name))
    else .ok ⟨name, bits, false, members⟩

-- A concrete privilege takes the next bit and joins the aggregate of all.
def add (r : Registry) (p : Privilege) : Registry :=
  if p.isConcrete then
    let join (all : Privilege) : Privilege :=
      { all with bits := all.bits ∪ p.bits, members := all.members ++ [p.name] }
    { privileges := (r.privileges.modify Privilege.allName join).insert p.name p,
      nextBit := r.nextBit + 1 }
  else
    { r with privileges := r.privileges.insert p.name p }

def register (r : Registry) (name : String) (isAbstract : Bool) (members : List String) :
    Except AccessError (Privilege × Registry) := do
  let p ← r.prepare name isAbstract members
  return (p, r.add p)

def enrol (name : String) (isAbstract : Bool) (members : List String) :
    ExceptT AccessError (StateM Registry) Privilege := do
  let (p, r) ← (← getThe Registry).register name isAbstract members
  set r
  return p

-- Goes through the candidates once and takes each that lies in `bits` and adds to what is already
-- covered.
def cover (bits : PrivilegeBits) : PrivilegeBits → List Privilege → List Privilege
  | _, [] => []
  | remaining, p :: candidates =>
    if p.bits ⊆ bits ∧ p.bits.meets remaining then
      p :: cover bits (remaining \ p.bits) candidates
    else
      cover bits remaining candidates

def candidates (r : Registry) : List Privilege :=
  sortOn (fun p => 64 - p.bits.card)
    (r.toList.filter fun p => p.name != Privilege.allName && p.bits != ∅)

def privilegesFor (r : Registry) (bits : PrivilegeBits) : List Privilege :=
  if bits = ∅ then []
  else match r.privileges[Privilege.allName]? with
    | some all => if all.bits ⊆ bits then [all] else rest
    | none => rest
where
  rest := sortOn (·.name) (cover bits bits r.candidates)

end Registry

end PolicyTree
