import PolicyTree.FlagSet
import PolicyTree.Text.Hex

namespace PolicyTree.Text.Flags

variable {w : Nat}

-- The names a set is given, and what of it stays unnamed. A row of the table is used if all of its
-- flags are in the set and one of them is still unnamed.
def name (set : FlagSet w) : List (String × FlagSet w) → FlagSet w → List String × FlagSet w
  | [], rest => ([], rest)
  | (label, flags) :: table, rest =>
    if flags ⊆ set ∧ flags.meets rest then
      let (labels, rest) := name set table (rest \ flags)
      (label :: labels, rest)
    else
      name set table rest

def number (set : FlagSet w) : String := "0x" ++ Hex.text set.toNat

def describe (table : List (String × FlagSet w)) (set : FlagSet w) : String :=
  let (labels, rest) := name set table set
  " | ".intercalate (if rest = ∅ then labels else labels ++ [number rest])

def ofNames? (table : List (String × FlagSet w)) (names : List String) : Option (FlagSet w) :=
  (names.mapM fun n => table.lookup n).map FlagSet.unions

end PolicyTree.Text.Flags
