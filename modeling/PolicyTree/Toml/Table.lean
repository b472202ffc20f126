import PolicyTree.Toml.Value

namespace PolicyTree.Toml

-- A table may be written in pieces. What may be added to it later depends on how it was made.
inductive Origin where
  -- By a heading of its own.
  | heading
  -- By a heading further down.
  | way
  -- By the dots in a key.
  | dots
deriving DecidableEq, Repr

inductive Entry where
  | value (v : Value)
  | table (origin : Origin) (entries : List (String × Entry))
  -- The last table comes first; further headings and keys lead into that one.
  | list (tables : List (List (String × Entry)))
deriving Repr

abbrev Table := List (String × Entry)

namespace Table

def find? (t : Table) (name : String) : Option Entry := t.lookup name

def put (t : Table) (name : String) (e : Entry) : Table := (name, e) :: t.filter (·.1 != name)

def within (change : Table → Option Table) : List String → Table → Option Table
  | [], t => change t
  | name :: names, t =>
    match t.find? name with
    | none => do return t.put name (.table .way (← within change names []))
    | some (.table origin inner) => do
      return t.put name (.table origin (← within change names inner))
    | some (.list (last :: others)) => do
      return t.put name (.list ((← within change names last) :: others))
    | some _ => none

-- A table that is begun may have been made by headings further down, and in no other way.
def begin (name : String) (t : Table) : Option Table :=
  match t.find? name with
  | none => some (t.put name (.table .heading []))
  | some (.table .way inner) => some (t.put name (.table .heading inner))
  | some _ => none

def beginNext (name : String) (t : Table) : Option Table :=
  match t.find? name with
  | none => some (t.put name (.list [[]]))
  | some (.list tables) => some (t.put name (.list ([] :: tables)))
  | some _ => none

-- Whether dots may lead into a table. The table that gets the value has to be made by dots too; one
-- before it may also be made by a heading further down.
def isOpen (origin : Origin) (getsValue : Bool) : Bool :=
  match origin with
  | .heading => false
  | .way => !getsValue
  | .dots => true

-- No key gets a second value.
def set (v : Value) : List String → Table → Option Table
  | [], _ => none
  | [name], t => if (t.find? name).isNone then some (t.put name (.value v)) else none
  | name :: names, t =>
    let getsValue := names.length = 1
    match t.find? name with
    | none => do return t.put name (.table .dots (← set v names []))
    | some (.table origin inner) => do
      if !isOpen origin getsValue then none
      return t.put name (.table origin (← set v names inner))
    | some (.list (last :: others)) => do
      if getsValue then none
      return t.put name (.list ((← set v names last) :: others))
    | some _ => none

end Table

end PolicyTree.Toml
