import PolicyTree.Policy.Entry
import PolicyTree.Privilege.Mapping

namespace PolicyTree

structure Decision where
  allows          : Permissions
  denies          : Permissions
  allowPrivileges : PrivilegeBits
  denyPrivileges  : PrivilegeBits
deriving DecidableEq, Repr

namespace Decision

def none : Decision := ⟨∅, ∅, ∅, ∅⟩

def everything : Decision := ⟨.all, ∅, .full, ∅⟩

def grants (d : Decision) (permissions : Permissions) : Bool := permissions ⊆ d.allows

-- Leaves to `d'` what `d` does not decide.
def combine (d d' : Decision) : Decision where
  allows          := d.allows ∪ (d'.allows \ d.denies)
  denies          := d.denies ∪ (d'.denies \ d.allows)
  allowPrivileges := d.allowPrivileges ∪ (d'.allowPrivileges \ d.denyPrivileges)
  denyPrivileges  := d.denyPrivileges ∪ (d'.denyPrivileges \ d.allowPrivileges)

def deriveAllows (d : Decision) (parentAllows : PrivilegeBits) (isPolicyItem : Bool) : Decision :=
  { d with
    allows := d.allows ∪
      (permissionsFor d.allowPrivileges parentAllows true isPolicyItem \ d.denies) }

def deriveDenies (d : Decision) (parentDenies : PrivilegeBits) (isPolicyItem : Bool) : Decision :=
  { d with
    denies := d.denies ∪
      (permissionsFor d.denyPrivileges parentDenies false isPolicyItem \ d.allows) }

end Decision

structure Item where
  path         : String
  node         : NodeId
  isPolicyItem : Bool

namespace Item

def atParent (i : Item) (e : Entry) : Bool := !e.isLocal i.node && (Path.parent i.path).any e.covers

def atItem (i : Item) (e : Entry) : Bool := e.covers i.path

end Item

-- What has been decided after some of the entries, of which the first that speaks for a privilege
-- decides it. Entries that cover the item decide its privileges, and those from above the node that
-- cover the item's parent decide whether the parent lets children be removed.
structure Tally where
  decision     : Decision
  parentAllows : PrivilegeBits
  parentDenies : PrivilegeBits
deriving DecidableEq

namespace Tally

def zero : Tally := ⟨.none, ∅, ∅⟩

def weighAtParent (t : Tally) (e : Entry) : Tally :=
  if e.isAllow then { t with parentAllows := t.parentAllows ∪ (e.bits \ t.parentDenies) }
  else { t with parentDenies := t.parentDenies ∪ (e.bits \ t.parentAllows) }

def weighAtItem (t : Tally) (isPolicyItem : Bool) (e : Entry) : Tally :=
  let d := t.decision
  if e.isAllow then
    let d := { d with allowPrivileges := d.allowPrivileges ∪ (e.bits \ d.denyPrivileges) }
    { t with decision := d.deriveAllows t.parentAllows isPolicyItem }
  else
    let d := { d with denyPrivileges := d.denyPrivileges ∪ (e.bits \ d.allowPrivileges) }
    { t with decision := d.deriveDenies t.parentDenies isPolicyItem }

def weigh (i : Item) (t : Tally) (e : Entry) : Tally :=
  let t := if i.atParent e then t.weighAtParent e else t
  if i.atItem e then t.weighAtItem i.isPolicyItem e else t

end Tally

-- Entries for the parent alone may still change what the privileges of the item stand for, so the
-- permissions are derived once more at the end.
def evaluate (entries : List Entry) (i : Item) : Decision :=
  let t := entries.foldl (Tally.weigh i) .zero
  (t.decision.deriveAllows t.parentAllows i.isPolicyItem).deriveDenies t.parentDenies i.isPolicyItem

end PolicyTree
