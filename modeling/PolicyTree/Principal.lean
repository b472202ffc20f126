namespace PolicyTree

inductive PrincipalKind where
  -- Administrators and the system itself are not subject to access control.
  | admin | system | named
deriving DecidableEq, Repr

structure Principal where
  name : String
  kind : PrincipalKind
deriving DecidableEq, Repr

namespace Principal

def named (name : String) : Principal := ⟨name, .named⟩

def admin (name : String) : Principal := ⟨name, .admin⟩

def system : Principal := ⟨"system", .system⟩

def isPrivileged (p : Principal) : Bool := p.kind != .named

end Principal

-- In order of priority, so that sets with the same members in different orders are different.
structure PrincipalSet where
  toList         : List Principal
  names_distinct : (toList.map (·.name)).Nodup
deriving DecidableEq

namespace PrincipalSet

def names (s : PrincipalSet) : List String := s.toList.map (·.name)

def contains (s : PrincipalSet) (name : String) : Bool := name ∈ s.names

instance : EmptyCollection PrincipalSet := ⟨⟨[], .nil⟩⟩

def push (s : PrincipalSet) (p : Principal) : PrincipalSet :=
  if h : p.name ∈ s.names then s
  else {
    toList := s.toList ++ [p]
    names_distinct := by
      have := s.names_distinct
      simp_all [names, List.nodup_append] }

def ofList (l : List Principal) : PrincipalSet := l.foldl push ∅

def signatureOf (name : String) : String := toString name.utf8ByteSize ++ ":" ++ name

-- The lengths tell where each name ends.
def signature (s : PrincipalSet) : String := String.join (s.names.map signatureOf)

def isPrivileged (s : PrincipalSet) : Bool := s.toList.any (·.isPrivileged)

def isEveryone (s : PrincipalSet) (everyone : String) : Bool := s.toList == [.named everyone]

end PrincipalSet

end PolicyTree
