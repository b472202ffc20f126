namespace PolicyTree.Text.Hex

def digits (n : Nat) : List Char := Nat.toDigits 16 n

def text (n : Nat) : String := String.ofList (digits n)

def padded (width n : Nat) : List Char :=
  List.replicate (width - (digits n).length) '0' ++ digits n

def digit? (c : Char) : Option Nat :=
  if '0' ≤ c ∧ c ≤ '9' then some (c.toNat - '0'.toNat)
  else if 'a' ≤ c ∧ c ≤ 'f' then some (c.toNat - 'a'.toNat + 10)
  else if 'A' ≤ c ∧ c ≤ 'F' then some (c.toNat - 'A'.toNat + 10)
  else none

def ofChars? : List Char → Option Nat
  | [] => none
  | cs => cs.foldlM (fun n c => (digit? c).map (16 * n + ·)) 0

def ofText? (s : String) : Option Nat :=
  match s.toList with
  | '0' :: 'x' :: cs => ofChars? cs
  | cs => ofChars? cs

end PolicyTree.Text.Hex
