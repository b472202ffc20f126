namespace PolicyTree

-- Values of different kinds are ordered by kind, in the order given here.
inductive Value where
  | string (s : String)
  | name (s : String)
  | boolean (b : Bool)
  | long (n : Int64)
  | names (l : List String)
  | strings (l : List String)
deriving DecidableEq, Ord, Repr, Inhabited

namespace Value

def asString? : Value → Option String
  | string s | name s => some s
  | _ => none

-- A single text counts as a list of one.
def asStrings? : Value → Option (List String)
  | names l | strings l => some l
  | string s | name s => some [s]
  | _ => none

def asBool? : Value → Option Bool
  | boolean b => some b
  | _ => none

def text : Value → String
  | string s | name s => s
  | boolean b => if b then "true" else "false"
  | long n => toString n.toInt
  | names l | strings l => "[" ++ ", ".intercalate l ++ "]"

end Value

end PolicyTree
