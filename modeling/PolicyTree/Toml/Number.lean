import PolicyTree.Text.Hex

namespace PolicyTree.Toml.Number

-- Digits with underscores, each of them between two digits.
def digits? (isDigit : Char → Bool) (cs : List Char) : Option (List Char) :=
  match cs, cs.getLast? with
  | first :: _, some last =>
    if isDigit first && isDigit last && cs.all (fun c => isDigit c || c = '_') &&
        (cs.zip cs.tail).all (· != ('_', '_')) then
      some (cs.filter (· != '_'))
    else none
  | _, _ => none

def value (base : Nat) (digits : List Char) : Nat :=
  digits.foldl (fun n c => base * n + (Text.Hex.digit? c).getD 0) 0

-- Decimal digits without a nought in front of others.
def whole? (cs : List Char) : Option (List Char) := do
  let digits ← digits? Char.isDigit cs
  if digits.length > 1 ∧ digits.head? = some '0' then none
  else some digits

def splitSign : List Char → Bool × List Char
  | '-' :: cs => (true, cs)
  | '+' :: cs => (false, cs)
  | cs => (false, cs)

def signed (isNegative : Bool) (n : Nat) : Int := if isNegative then -n else n

def inRange (n : Int) : Bool := -9223372036854775808 ≤ n && n ≤ 9223372036854775807

def integer? (cs : List Char) : Option Int := do
  let n : Int ← match cs with
    | '0' :: 'x' :: cs => (digits? (fun c => (Text.Hex.digit? c).isSome) cs).map (value 16 ·)
    | '0' :: 'o' :: cs => (digits? (fun c => '0' ≤ c && c ≤ '7') cs).map (value 8 ·)
    | '0' :: 'b' :: cs => (digits? (fun c => c = '0' || c = '1') cs).map (value 2 ·)
    | cs =>
      let (isNegative, cs) := splitSign cs
      (whole? cs).map fun digits => signed isNegative (value 10 digits)
  if inRange n then some n else none

-- Midway between the largest double and the power of two after it. A number from here on has no
-- double next to it.
def overflow : Nat := Nat.pow 2 1024 - Nat.pow 2 970

-- Whether `n` times the power of ten reaches `overflow`. The places before the point decide, unless
-- there are as many as `overflow` has.
def overflows (n : Nat) (exponent : Int) : Bool :=
  let places := (Nat.toDigits 10 n).length + exponent
  if n = 0 then false
  else if places ≠ 309 then 309 < places
  else overflow * Nat.pow 10 (-exponent).toNat ≤ n * Nat.pow 10 exponent.toNat

-- Whether the characters are a number with a fraction, an exponent or both, or no number at all
-- under one of the names for that. A number too large for a double is not one, while the negative
-- ones have no bound.
def isFraction (cs : List Char) : Bool :=
  let (isNegative, cs) := splitSign cs
  cs = "inf".toList || cs = "nan".toList || (finite? isNegative cs).isSome
where
  finite? (isNegative : Bool) (cs : List Char) : Option Unit := do
    let isExponent c := c = 'e' || c = 'E'
    let mantissa := cs.takeWhile (!isExponent ·)
    let power := cs.dropWhile (!isExponent ·)
    let front := mantissa.takeWhile (· != '.')
    let back := mantissa.dropWhile (· != '.')
    if back.isEmpty && power.isEmpty then none
    let front ← whole? front
    let back ← if back.isEmpty then some [] else digits? Char.isDigit back.tail
    let exponent ← if power.isEmpty then some 0 else
      let (isSmall, power) := splitSign power.tail
      (digits? Char.isDigit power).map fun digits => signed isSmall (value 10 digits)
    if !isNegative && overflows (value 10 (front ++ back)) (exponent - back.length) then none

example :
    isFraction "1e308".toList ∧ ¬ isFraction "1e309".toList ∧ isFraction "-1e309".toList ∧
    isFraction "0e309".toList ∧ isFraction "1797693134862315.7e293".toList ∧
    ¬ isFraction "17976931348623159e292".toList ∧
    isFraction "0.17976931348623158e309".toList := by
  decide +kernel

end PolicyTree.Toml.Number
