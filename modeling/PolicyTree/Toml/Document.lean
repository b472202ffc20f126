import PolicyTree.Toml.Table

namespace PolicyTree.Toml

inductive Line where
  | heading (names : List String)
  -- A heading for the next table of a list.
  | next (names : List String)
  | setting (key : List String) (value : Value)
deriving DecidableEq, Repr

-- A table, and the names that lead to the part of it that is being written.
structure Document where
  table : Table
  under : List String
deriving Repr

namespace Document

def empty : Document := ⟨[], []⟩

def head (d : Document) (begin : String → Table → Option Table) (names : List String) :
    Option Document := do
  let last ← names.getLast?
  return ⟨← d.table.within (begin last) names.dropLast, names⟩

def add (d : Document) : Line → Option Document
  | .heading names => d.head Table.begin names
  | .next names => d.head Table.beginNext names
  | .setting key v => do return { d with table := ← d.table.within (Table.set v key) d.under }

def find? (d : Document) (name : String) : Option Entry := d.table.find? name

end Document

namespace Scanner

def line : Scanner (Option Line) := do
  blanks
  if (← isAtEnd) || (← isNext '#') || (← isNext '\n') || (← isNext '\r') then
    endOfLine
    return none
  let said ← if ← takes (skip ['[', '[']) then do
      let names ← key
      skip [']', ']']
      pure (Line.next names)
    else if ← takes (skip ['[']) then do
      let names ← key
      skip [']']
      pure (Line.heading names)
    else do
      let name ← key
      skip ['=']
      blanks
      pure (Line.setting name (← value))
  endOfLine
  return some said

def lines : Nat → Document → Scanner Document
  | 0, _ => failure
  | n + 1, d => do
    if ← isAtEnd then return d
    match ← line with
    | none => lines n d
    | some said =>
      let some d := d.add said | failure
      lines n d

end Scanner

def Document.ofText? (s : String) : Option Document :=
  let cs := match s.toList with
    | '\ufeff' :: cs => cs
    | cs => cs
  ((Scanner.lines (cs.length + 1) .empty).run cs).map (·.1)

-- Writing.

def quote (s : String) : String :=
  String.ofList ('"' :: s.toList.flatMap escape ++ ['"'])
where
  escape (c : Char) : List Char :=
    if c = '"' ∨ c = '\\' then ['\\', c]
    else if Scanner.isControl c then '\\' :: 'u' :: Text.Hex.padded 4 c.toNat
    else [c]

def line (name value : String) : String := name ++ " = " ++ value ++ "\n"

end PolicyTree.Toml
