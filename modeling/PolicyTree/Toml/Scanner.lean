import PolicyTree.Text.Hex

namespace PolicyTree.Toml

-- A key has fewer parts than this, and a value stands within fewer others.
def depthBound : Nat := 80

-- Takes what it reads from the front of a text; a text that does not begin with it is refused.
abbrev Scanner := StateT (List Char) Option

namespace Scanner

def takeWhile (p : Char → Bool) : Scanner (List Char) :=
  modifyGet fun cs => (cs.takeWhile p, cs.dropWhile p)

def skip (lead : List Char) : Scanner Unit := do
  let cs ← get
  if lead.isPrefixOf cs then set (cs.drop lead.length) else failure

def isNext (c : Char) : Scanner Bool := return (← get).head? = some c

def isAtEnd : Scanner Bool := return (← get).isEmpty

def takes (part : Scanner Unit) : Scanner Bool := (do part; return true) <|> return false

def isBlank (c : Char) : Bool := c = ' ' || c = '\t'

def isControl (c : Char) : Bool := (c.toNat < 32 && c != '\t') || c.toNat = 127

def blanks : Scanner Unit := discard <| takeWhile isBlank

-- A comment reaches to the end of its line and holds no control characters.
def comment : Scanner Unit := do
  if ← isNext '#' then
    let body ← takeWhile fun c => c != '\n' && c != '\r'
    if body.any isControl then failure

def lineLength : Scanner Nat := return ((← get).takeWhile (· != '\n')).length

def lineBreak : Scanner Unit := skip ['\n'] <|> skip ['\r', '\n']

def endOfLine : Scanner Unit := do
  blanks
  comment
  if !(← isAtEnd) then lineBreak

def spaceWith (comment : Scanner Unit) : Scanner Unit := do
  blanks
  comment
  if ← takes lineBreak then go (← get).length
where
  go : Nat → Scanner Unit
    | 0 => pure ()
    | n + 1 => do
      blanks
      comment
      if ← takes lineBreak then go n

def space : Scanner Unit := spaceWith comment

def numbered (width : Nat) : Scanner Char := do
  let cs ← get
  let digits := cs.take width
  if digits.length < width then failure
  let some n := Text.Hex.ofChars? digits | failure
  if ¬ n.isValidChar then failure
  set (cs.drop width)
  return Char.ofNat n

def escaped : Scanner Char := do
  skip ['\\']
  let c :: cs ← get | failure
  set cs
  match c with
  | 'b' => return '\x08'
  | 't' => return '\t'
  | 'n' => return '\n'
  | 'f' => return '\x0c'
  | 'r' => return '\r'
  | '"' => return '"'
  | '\\' => return '\\'
  | 'u' => numbered 4
  | 'U' => numbered 8
  | _ => failure

def plain : Scanner Char := do
  let c :: cs ← get | failure
  if isControl c then failure
  set cs
  return c

def basicText : Scanner String := do
  skip ['"']
  return String.ofList (← go (← lineLength))
where
  go : Nat → Scanner (List Char)
    | 0 => failure
    | n + 1 => do
      if ← takes (skip ['"']) then return []
      let c ← if ← isNext '\\' then escaped else plain
      return c :: (← go n)

def literalText : Scanner String := do
  skip ['\'']
  let body ← takeWhile fun c => c != '\'' && !isControl c
  skip ['\'']
  return String.ofList body

-- A backslash at the end of a line, which hides all blanks and breaks up to the next character.
def hiddenBreak : Scanner Unit := do
  skip ['\\']
  blanks
  lineBreak
  spaceWith (pure ())

-- A text between three quotes and three more, over any number of lines. A break right at its start
-- is not part of it, and one or two quotes may stand anywhere in it, so that up to five end it.
-- Only double quotes know escapes.
def longText (mark : Char) : Scanner String := do
  skip [mark, mark, mark]
  discard <| takes lineBreak
  return String.ofList (← go (← get).length)
where
  go : Nat → Scanner (List Char)
    | 0 => failure
    | n + 1 => do
      if ← isNext mark then
        let marks ← takeWhile (· = mark)
        if marks.length < 3 then return marks ++ (← go n)
        if marks.length < 6 then return marks.drop 3
        failure
      if ← takes lineBreak then return '\n' :: (← go n)
      if mark = '"' && (← isNext '\\') then
        if ← takes hiddenBreak then go n else return (← escaped) :: (← go n)
      else return (← plain) :: (← go n)

def text : Scanner String :=
  longText '"' <|> basicText <|> longText '\'' <|> literalText

def isBare (c : Char) : Bool := c.isAlphanum || c = '_' || c = '-'

def simpleKey : Scanner String := do
  if ← isNext '"' then basicText
  else if ← isNext '\'' then literalText
  else
    let name ← takeWhile isBare
    if name.isEmpty then failure
    return String.ofList name

def key : Scanner (List String) := do
  let names ← go (← lineLength)
  if depthBound ≤ names.length then failure
  return names
where
  go : Nat → Scanner (List String)
    | 0 => failure
    | n + 1 => do
      blanks
      let first ← simpleKey
      blanks
      if ← takes (skip ['.']) then return first :: (← go n)
      return [first]

end Scanner

end PolicyTree.Toml
