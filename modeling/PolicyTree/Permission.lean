import PolicyTree.Text.Flags

namespace PolicyTree

abbrev Permissions := FlagSet 32

namespace Permissions

def read               : Permissions := .single 0
def setProperty        : Permissions := .single 1
def addNode            : Permissions := .single 2
def removeNode         : Permissions := .single 3
def removeProperty     : Permissions := .single 4
-- Reading and modifying the access control content of a node.
def readPolicy         : Permissions := .single 5
def modifyPolicy       : Permissions := .single 6
def manageNodeTypes    : Permissions := .single 7
def manageVersions     : Permissions := .single 8
def manageLocks        : Permissions := .single 9
def manageLifecycle    : Permissions := .single 10
def manageRetention    : Permissions := .single 11

def singles : List (String × Permissions) := [
  ("READ", read), ("SET_PROPERTY", setProperty), ("ADD_NODE", addNode),
  ("REMOVE_NODE", removeNode), ("REMOVE_PROPERTY", removeProperty), ("READ_AC", readPolicy),
  ("MODIFY_AC", modifyPolicy), ("NODE_TYPE_MNGMT", manageNodeTypes),
  ("VERSION_MNGMT", manageVersions), ("LOCK_MNGMT", manageLocks),
  ("LIFECYCLE_MNGMT", manageLifecycle), ("RETENTION_MNGMT", manageRetention)]

def all : Permissions := .unions (singles.map (·.2))

def table : List (String × Permissions) := ("NONE", ∅) :: singles ++ [("ALL", all)]

end Permissions

end PolicyTree
