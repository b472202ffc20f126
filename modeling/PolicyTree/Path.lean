import PolicyTree.Text.Pieces
import PolicyTree.Text.Quoted

namespace PolicyTree.Path

inductive Error where
  | notAbsolute (path : String)
  | emptySegment (path : String)
  | invalidName (name : String)
deriving DecidableEq, Repr

def Error.message : Error → String
  | notAbsolute path  => "not absolute: " ++ path
  | emptySegment path => "empty segment: " ++ path
  | invalidName name  => "invalid name: " ++ Text.Quoted.text name

def root : String := "/"

def segments (cs : List Char) : List (List Char) := Text.pieces '/' cs

-- What stands before and after the last slash.
def splitLast : List Char → Option (List Char × List Char)
  | [] => none
  | c :: cs =>
    match splitLast cs with
    | some (before, after) => some (c :: before, after)
    | none => if c = '/' then some ([], cs) else none

def names (path : String) : List String :=
  (segments path.toList.tail).map String.ofList

-- The root is a lone slash. Every other path is a slash followed by names, none of them empty, with
-- a slash between two.
def validate (path : String) : Except Error Unit :=
  if path = root then .ok ()
  else match path.toList with
    | '/' :: cs => if [] ∈ segments cs then .error (.emptySegment path) else .ok ()
    | _ => .error (.notAbsolute path)

def validateName (name : String) : Except Error Unit :=
  if name = "" ∨ '/' ∈ name.toList ∨ name = "." ∨ name = ".." then .error (.invalidName name)
  else .ok ()

def parent (path : String) : Option String :=
  if path = root then none
  else match splitLast path.toList with
    | none => none
    | some ([], _) => some root
    | some (before, _) => some (String.ofList before)

def ancestor (path : String) : (levels : Nat) → Option String
  | 0 => some path
  | levels + 1 => (parent path).bind (ancestor · levels)

-- No path has more parents than characters.
def upward (path : String) : List String :=
  go path.length path
where
  go : Nat → String → List String
    | 0, path => [path]
    | n + 1, path => path :: match parent path with
      | some up => go n up
      | none => []

def name (path : String) : String :=
  match splitLast path.toList with
  | none => path
  | some (_, after) => String.ofList after

def join (parent name : String) : String :=
  if parent = root then "/" ++ name else parent ++ "/" ++ name

-- Whether `path` is `top` or lies below it.
def covers (top path : String) : Bool :=
  if top = root then path.toList.head? == some '/'
  else path == top || (top.toList ++ ['/']).isPrefixOf path.toList

def depth (path : String) : Nat :=
  if path = root then 0 else path.toList.count '/'

end PolicyTree.Path
