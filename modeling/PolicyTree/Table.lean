import Std.Data.ExtTreeMap

namespace PolicyTree

-- Numbers are handed out in turn and never again.
structure Table (α : Type) where
  items : Std.ExtTreeMap Nat α
  next  : Nat

namespace Table

variable {α : Type}

def empty : Table α := ⟨∅, 0⟩

def get? (t : Table α) (n : Nat) : Option α := t.items[n]?

def values (t : Table α) : List α := t.items.values

def contains (t : Table α) (n : Nat) : Bool := t.items.contains n

def add (t : Table α) (a : α) : Nat × Table α := (t.next, ⟨t.items.insert t.next a, t.next + 1⟩)

def set (t : Table α) (n : Nat) (a : α) : Table α := { t with items := t.items.modify n fun _ => a }

def modify (t : Table α) (n : Nat) (f : α → α) : Table α := { t with items := t.items.modify n f }

def erase (t : Table α) (n : Nat) : Table α := { t with items := t.items.erase n }

end Table

end PolicyTree
