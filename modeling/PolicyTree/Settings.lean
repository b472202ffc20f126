import PolicyTree.Access.Error
import PolicyTree.Toml.Document

namespace PolicyTree

structure Settings where
  -- Whether the root gets no policy to start with.
  omitDefaultPolicy : Bool
  -- How many lists of entries are kept for all, and how many decisions and read checks for each.
  entriesCapacity   : Nat
  resultCapacity    : Nat
  readCapacity      : Nat
  -- Who may do everything, and who may read, by the policy that the root starts with.
  administrators    : String
  everyone          : String
deriving DecidableEq, Repr

namespace Settings

def initial : Settings where
  omitDefaultPolicy := false
  entriesCapacity   := 1000
  resultCapacity    := 1000
  readCapacity      := 5000
  administrators    := "administrators"
  everyone          := "everyone"

namespace Key

def omitDefaultPolicy : String := "omit_default_permission"
def entriesCapacity   : String := "entries_cache_capacity"
def resultCapacity    : String := "result_cache_capacity"
def readCapacity      : String := "read_cache_capacity"
def administrators    : String := "administrators_principal"
def everyone          : String := "everyone_principal"

end Key

def capacities (s : Settings) : List (String × Nat) := [
  (Key.entriesCapacity, s.entriesCapacity),
  (Key.resultCapacity, s.resultCapacity),
  (Key.readCapacity, s.readCapacity)]

def validate (s : Settings) : Except SettingsError Unit := do
  if let some (name, _) := s.capacities.find? (·.2 = 0) then throw (.zeroCapacity name)
  if s.everyone = "" then throw .emptyEveryone

-- Reading.

def field {α : Type} (d : Toml.Document) (name : String) (default : α)
    (content? : Toml.Value → Option α) : Option α :=
  match d.find? name with
  | none => some default
  | some (.value v) => content? v
  | some _ => none

def flag? : Toml.Value → Option Bool
  | .boolean b => some b
  | _ => none

def capacity? : Toml.Value → Option Nat
  | .integer n => n.toNat?
  | _ => none

def text? : Toml.Value → Option String
  | .text s => some s
  | _ => none

def ofDocument? (d : Toml.Document) : Option Settings := do
  return {
    omitDefaultPolicy := ← field d Key.omitDefaultPolicy initial.omitDefaultPolicy flag?
    entriesCapacity   := ← field d Key.entriesCapacity initial.entriesCapacity capacity?
    resultCapacity    := ← field d Key.resultCapacity initial.resultCapacity capacity?
    readCapacity      := ← field d Key.readCapacity initial.readCapacity capacity?
    administrators    := ← field d Key.administrators initial.administrators text?
    everyone          := ← field d Key.everyone initial.everyone text? }

-- Keys that are missing keep their usual values, and keys that mean nothing here are passed over.
def ofText (s : String) : Except SettingsError Settings := do
  let some settings := (Toml.Document.ofText? s).bind ofDocument? | throw .unreadable
  settings.validate
  return settings

-- Writing.

-- Whole numbers of a document have to fit in sixty-four bits with a sign.
def isWritable (s : Settings) : Bool := s.capacities.all fun c => Toml.Number.inRange c.2

def toText (s : Settings) : Except SettingsError String :=
  if s.isWritable then
    .ok <| String.join [
      Toml.line Key.omitDefaultPolicy (if s.omitDefaultPolicy then "true" else "false"),
      Toml.line Key.entriesCapacity (toString s.entriesCapacity),
      Toml.line Key.resultCapacity (toString s.resultCapacity),
      Toml.line Key.readCapacity (toString s.readCapacity),
      Toml.line Key.administrators (Toml.quote s.administrators),
      Toml.line Key.everyone (Toml.quote s.everyone)]
  else .error .unwritable

end Settings

end PolicyTree
