import PathGlob.Text

namespace PathGlob.Regex

def isSpecial (c : Char) : Bool :=
  ['.', '+', '?', '*', '^', '$', '|', '(', ')', '[', ']', '{', '}', '\\'].contains c

/-- What is escaped in a text that may stand anywhere: also marks with a meaning inside sets, and
blanks. -/
def isGuarded (c : Char) : Bool :=
  isSpecial c || ['-', '&', '~', '#', ' ', '\t', '\n', '\r', '\x0b', '\x0c'].contains c

def escapeIf (test : Char → Bool) (c : Char) : Text := if test c then ['\\', c] else [c]

def startsSpecial : Text → Bool
  | [] => false
  | c :: _ => isSpecial c

def escapeSep (sep : Text) : Text :=
  if startsSpecial sep || sep == ['/'] then '\\' :: sep else sep.flatMap (escapeIf isGuarded)

def escape (sep text : Text) : Text :=
  let escaped := text.flatMap (escapeIf isSpecial)
  if startsSpecial sep then escaped else Text.replace sep (escapeSep sep) escaped

end PathGlob.Regex
