import PolicyTree.Policy.Basic
import PolicyTree.Tree.Session

namespace PolicyTree

-- Failing work on the tree fails the work that it is part of.
instance : MonadLift (SessionM TreeError) (SessionM AccessError) :=
  ⟨fun work saved => (work saved).adapt .tree⟩

namespace Policy

def mixin              : String := "rep:AccessControllable"
def listType           : String := "rep:ACL"
def entryType          : String := "rep:ACE"
def allowType          : String := "rep:GrantACE"
def denyType           : String := "rep:DenyACE"
def nodeName           : String := "rep:policy"
def principalProperty  : String := "rep:principalName"
def privilegesProperty : String := "rep:privileges"

def isContent (tree : TreeView) (node : NodeHandle) : Except TreeError Bool := do
  if ← tree.isType node listType then return true
  tree.isType node entryType

def node? (tree : TreeView) (owner : NodeHandle) : Except TreeError (Option NodeHandle) := do
  if !(← tree.isType owner mixin) then return none
  let some policy ← tree.child owner nodeName | return none
  return if ← tree.isType policy listType then some policy else none

-- Reading.

def isRestriction (name : String) : Bool :=
  name != principalProperty && name != privilegesProperty && !"jcr:".toList.isPrefixOf name.toList

def required {α : Type} (tree : TreeView) (entry : NodeHandle) (name : String)
    (content? : Value → Option α) : Except AccessError α := do
  match (← tree.property entry name).bind content? with
  | some content => return content
  | none => throw (.invalidEntry (.missingProperty entry.path name))

def readRestrictions (tree : TreeView) (entry : NodeHandle) : Except TreeError Restrictions := do
  let names := (← tree.propertyNames entry).filter isRestriction
  names.foldlM (fun restrictions name =>
    return match ← tree.property entry name with
      | some value => restrictions.insert name value
      | none => restrictions) ∅

def readEntry (tree : TreeView) (registry : Registry) (owner entry : NodeHandle) :
    Except AccessError Entry := do
  let principal ← required tree entry principalProperty Value.asString?
  let names ← required tree entry privilegesProperty Value.asStrings?
  let privileges ← registry.getAll names
  let restrictions ← readRestrictions tree entry
  let isAllow ← tree.isType entry allowType
  Entry.make principal privileges isAllow restrictions owner

-- An entry that cannot be read fails the whole.
def load (tree : TreeView) (registry : Registry) (owner : NodeHandle) :
    Except AccessError (Option Policy) := do
  let some policy ← node? tree owner | return none
  let addNext (p : Policy) (entry : NodeHandle) : Except AccessError Policy := do
    if !(← tree.isType entry entryType) then return p
    return p.add (← readEntry tree registry owner entry)
  return some (← (← tree.children policy).foldlM addNext (empty owner))

-- Writing.

def baseName (isAllow : Bool) : String := if isAllow then "allow" else "deny"

-- The first name that is not used of `base`, then `base` with `number`, the number after it, and so
-- on. One of the first `used.length + 1` of them is free.
def freeName (used : List String) (base : String) (number : Nat) : String :=
  if base ∈ used then go used.length number else base
where
  go : Nat → Nat → String
    | 0, number => base ++ toString number
    | tries + 1, number =>
      if base ++ toString number ∈ used then go tries (number + 1) else base ++ toString number

-- Names for the nodes of the entries, given which of them allow: a plain one where it is not taken
-- yet, else one with a number, the position of the entry or the next that is not taken.
def nodeNames (allows : List Bool) : List String := go [] 0 allows
where
  go (used : List String) (index : Nat) : List Bool → List String
    | [] => []
    | isAllow :: allows =>
      let name := freeName used (baseName isAllow) index
      name :: go (name :: used) (index + 1) allows

def storeEntry (policy : NodeHandle) (name : String) (e : Entry) : SessionM TreeError Unit := do
  let node ← SessionM.addNode policy name (if e.isAllow then allowType else denyType)
  SessionM.setProperty node principalProperty (.string e.principal)
  SessionM.setProperty node privilegesProperty (.names (e.privileges.map (·.name)))
  e.restrictions.toList.forM fun (restriction, value) =>
    SessionM.setProperty node restriction value

-- The owner gets a mixin and a child that is the policy, in place of whatever it has under the name
-- of one. The children of the policy are its entries in order.
def store (p : Policy) : SessionM TreeError Unit := do
  if !(← SessionM.ask (·.isType p.owner mixin)) then
    SessionM.addMixin p.owner mixin
  if let some former ← SessionM.ask (·.child p.owner nodeName) then
    SessionM.removeNode former
  let policy ← SessionM.addNode p.owner nodeName listType
  ((nodeNames (p.entries.map (·.isAllow))).zip p.entries).forM fun (name, e) =>
    storeEntry policy name e

end Policy

end PolicyTree
