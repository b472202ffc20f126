import PolicyTree.Toml.Moment
import PolicyTree.Toml.Number

namespace PolicyTree.Toml

-- Texts, whole numbers and truth values are read for what they hold, other values are only
-- recognised.
inductive Value where
  | text (s : String)
  | integer (n : Int)
  | boolean (b : Bool)
  -- A fraction, a date or a time, an array or a table.
  | other
deriving DecidableEq, Repr

namespace Scanner

def word? (cs : List Char) : Option Value :=
  if cs = "true".toList then some (.boolean true)
  else if cs = "false".toList then some (.boolean false)
  else match Number.integer? cs with
    | some n => some (.integer n)
    | none => if Number.isFraction cs then some .other else none

def simpleValue : Scanner Value := do
  if (← isNext '"') || (← isNext '\'') then return .text (← text)
  if ← takes moment then return .other
  match word? (← takeWhile fun c => isBare c || c = '+' || c = '.') with
  | some v => return v
  | none => failure

def items (item : Scanner Unit) : Nat → Scanner Unit
  | 0 => failure
  | n + 1 => do
    space
    if ← takes (skip [']']) then return
    item
    space
    if ← takes (skip [',']) then items item n else skip [']']

-- No key may be given twice, nor lead through another one.
def fields (item : Scanner Unit) : Nat → List (List String) → Scanner Unit
  | 0, _ => failure
  | n + 1, used => do
    let name ← key
    if used.any fun other => name.isPrefixOf other || other.isPrefixOf name then failure
    skip ['=']
    blanks
    item
    blanks
    if ← takes (skip [',']) then fields item n (name :: used) else skip ['\x7d']

def valueWithin : Nat → Scanner Value
  | 0 => simpleValue
  | depth + 1 => do
    let item := discard (valueWithin depth)
    if ← takes (skip ['[']) then
      items item (← get).length
      return .other
    if ← takes (skip ['\x7b']) then
      blanks
      if !(← takes (skip ['\x7d'])) then fields item (← get).length []
      return .other
    simpleValue

def value : Scanner Value := valueWithin (depthBound - 1)

end Scanner

end PolicyTree.Toml
