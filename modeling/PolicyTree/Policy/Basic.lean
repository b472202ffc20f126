import PolicyTree.Policy.Entry

namespace PolicyTree

structure Policy where
  owner   : NodeHandle
  entries : List Entry
deriving DecidableEq

namespace Policy

def empty (owner : NodeHandle) : Policy := ⟨owner, []⟩

def contains (p : Policy) (e : Entry) : Bool := p.entries.any (·.same e)

def add (p : Policy) (e : Entry) : Policy :=
  if p.contains e then p else { p with entries := p.entries ++ [e] }

def remove (p : Policy) (e : Entry) : Policy :=
  { p with entries := p.entries.eraseP (·.same e) }

def same (p q : Policy) : Bool :=
  p.owner = q.owner && p.entries.map Entry.content = q.entries.map Entry.content

end Policy

end PolicyTree
