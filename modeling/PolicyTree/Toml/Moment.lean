import PolicyTree.Toml.Scanner

namespace PolicyTree.Toml

namespace Moment

def isLeap (year : Nat) : Bool := year % 4 = 0 && (year % 100 != 0 || year % 400 = 0)

def lastDay (year month : Nat) : Nat :=
  if month = 2 then if isLeap year then 29 else 28
  else if month ∈ [4, 6, 9, 11] then 30
  else 31

end Moment

namespace Scanner

def numberWithin (width least most : Nat) : Scanner Nat := do
  let cs ← get
  let digits := cs.take width
  if digits.length < width || !digits.all Char.isDigit then failure
  let n := digits.foldl (fun n c => 10 * n + (c.toNat - '0'.toNat)) 0
  if n < least || most < n then failure
  set (cs.drop width)
  return n

def date : Scanner Unit := do
  let year ← numberWithin 4 0 9999
  skip ['-']
  let month ← numberWithin 2 1 12
  skip ['-']
  discard <| numberWithin 2 1 (Moment.lastDay year month)

def hourAndMinute : Scanner Unit := do
  discard <| numberWithin 2 0 23
  skip [':']
  discard <| numberWithin 2 0 59

-- A minute may have a leap second.
def time : Scanner Unit := do
  hourAndMinute
  skip [':']
  discard <| numberWithin 2 0 60
  if ← takes (skip ['.']) then
    if (← takeWhile Char.isDigit).isEmpty then failure

def offset : Scanner Unit :=
  skip ['Z'] <|> skip ['z'] <|> do
    skip ['+'] <|> skip ['-']
    hourAndMinute

-- Dates and times are only recognised. With both there may be an offset.
def moment : Scanner Unit := dated <|> time
where
  dated : Scanner Unit := do
    date
    discard <| takes do
      skip ['T'] <|> skip ['t'] <|> skip [' ']
      time
      discard <| takes offset

end Scanner

end PolicyTree.Toml
