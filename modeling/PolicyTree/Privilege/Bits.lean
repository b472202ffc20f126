import PolicyTree.Text.Flags

namespace PolicyTree

abbrev PrivilegeBits := FlagSet 64

namespace PrivilegeBits

def read               : PrivilegeBits := .single 0
def modifyProperties   : PrivilegeBits := .single 1
def addChildNodes      : PrivilegeBits := .single 2
def removeNode         : PrivilegeBits := .single 3
def removeChildNodes   : PrivilegeBits := .single 4
def readPolicy         : PrivilegeBits := .single 5
def modifyPolicy       : PrivilegeBits := .single 6
def manageNodeTypes    : PrivilegeBits := .single 7
def manageVersions     : PrivilegeBits := .single 8
def manageLocks        : PrivilegeBits := .single 9
def manageLifecycle    : PrivilegeBits := .single 10
def manageRetention    : PrivilegeBits := .single 11

def firstCustom : Nat := 16

def write : PrivilegeBits := .unions [modifyProperties, addChildNodes, removeNode, removeChildNodes]

def singles : List (String × PrivilegeBits) := [
  ("READ", read), ("MODIFY_PROPERTIES", modifyProperties), ("ADD_CHILD_NODES", addChildNodes),
  ("REMOVE_NODE", removeNode), ("REMOVE_CHILD_NODES", removeChildNodes), ("READ_AC", readPolicy),
  ("MODIFY_AC", modifyPolicy), ("NODE_TYPE_MNGMT", manageNodeTypes),
  ("VERSION_MNGMT", manageVersions), ("LOCK_MNGMT", manageLocks),
  ("LIFECYCLE_MNGMT", manageLifecycle), ("RETENTION_MNGMT", manageRetention)]

def builtin : PrivilegeBits := .unions (singles.map (·.2))

def table : List (String × PrivilegeBits) :=
  ("NONE", ∅) :: singles ++ [("WRITE", write), ("ALL_BUILTIN", builtin)]

end PrivilegeBits

end PolicyTree
