import PolicyTree.Permission
import PolicyTree.Privilege.Bits

namespace PolicyTree

def permissionsIf (privileges needed : PrivilegeBits) (held : Permissions) : Permissions :=
  if needed ⊆ privileges then held else ∅

-- Whether a node may be removed takes a privilege on the node and one on its parent. To allow it
-- both are needed, to deny it either is enough.
def decidesRemoval (privileges parentPrivileges : PrivilegeBits) (isAllow : Bool) : Bool :=
  let onNode   : Bool := PrivilegeBits.removeNode ⊆ privileges
  let onParent : Bool := PrivilegeBits.removeChildNodes ⊆ parentPrivileges
  if isAllow then onNode && onParent else onNode || onParent

-- What it takes to edit a policy item by item.
def editing : Permissions :=
  .modifyPolicy ∪ .addNode ∪ .setProperty ∪ .removeNode ∪ .removeProperty

-- The permissions allowed or denied by privileges on an item. On access control content only the
-- two privileges for it count, and they stand for all it takes to read or edit a policy.
def permissionsFor (privileges parentPrivileges : PrivilegeBits) (isAllow isPolicyItem : Bool) :
    Permissions :=
  if isPolicyItem then .unions [
    permissionsIf privileges .readPolicy (.read ∪ .readPolicy),
    permissionsIf privileges .modifyPolicy editing]
  else .unions [
    permissionsIf privileges .read .read,
    permissionsIf privileges .modifyProperties (.setProperty ∪ .removeProperty),
    permissionsIf privileges .addChildNodes .addNode,
    if decidesRemoval privileges parentPrivileges isAllow then Permissions.removeNode else ∅,
    permissionsIf privileges .readPolicy .readPolicy,
    permissionsIf privileges .modifyPolicy .modifyPolicy,
    permissionsIf privileges .manageNodeTypes .manageNodeTypes,
    permissionsIf privileges .manageVersions .manageVersions,
    permissionsIf privileges .manageLocks .manageLocks,
    permissionsIf privileges .manageLifecycle .manageLifecycle,
    permissionsIf privileges .manageRetention .manageRetention]

end PolicyTree
