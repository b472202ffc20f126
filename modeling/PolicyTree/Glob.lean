import PolicyTree.Text.Wildcard
import PolicyTree.Access.Error

namespace PolicyTree

structure Glob where
  owner       : String
  restriction : Option String
deriving DecidableEq, Repr

namespace Glob

def restrictionName : String := "rep:glob"

-- Characters that other glob dialects give a meaning.
def unsupported : List Char := ['[', ']', '?']

def validate (restriction : String) : Except EntryError Unit :=
  match restriction.toList.find? (· ∈ unsupported) with
  | some c => .error (.unsupportedGlob c restriction)
  | none => .ok ()

-- At the root the slash of the owner and one that begins the restriction are the same.
def pattern (owner restriction : String) : String :=
  if owner = Path.root ∧ restriction.toList.head? = some '/' then restriction
  else owner ++ restriction

def bytes (text : String) : List UInt8 := text.toByteArray.data.toList

-- Without a restriction an entry covers its owner and all that lies below, an empty one leaves the
-- owner alone, and any other is matched, with the owner's path in front of it, against the whole
-- path of an item.
def covers (g : Glob) (item : String) : Bool :=
  Path.covers g.owner item &&
    match g.restriction with
    | none => true
    | some "" => item == g.owner
    | some r => Text.Wildcard.test '*'.toUInt8 (bytes (pattern g.owner r)) (bytes item)

end Glob

end PolicyTree
