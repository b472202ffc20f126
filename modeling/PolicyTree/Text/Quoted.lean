import PolicyTree.Text.Graphic
import PolicyTree.Text.Hex

namespace PolicyTree.Text.Quoted

-- Whatever could be mistaken for the mark, or would not be seen, is escaped.
def escape (mark c : Char) : List Char :=
  if c = '\x00' then ['\\', '0']
  else if c = '\t' then ['\\', 't']
  else if c = '\r' then ['\\', 'r']
  else if c = '\n' then ['\\', 'n']
  else if c = mark ∨ c = '\\' then ['\\', c]
  else if Graphic.isGraphic c then [c]
  else "\\u\x7b".toList ++ Hex.digits c.toNat ++ ['\x7d']

def text (s : String) : String :=
  String.ofList ('"' :: s.toList.flatMap (escape '"') ++ ['"'])

def char (c : Char) : String :=
  String.ofList ('\'' :: escape '\'' c ++ ['\''])

end PolicyTree.Text.Quoted
