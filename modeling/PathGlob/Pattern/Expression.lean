import PathGlob.Pattern.Compile
import PathGlob.Regex.Reader

/-!
The regular expression of a pattern, as a text, and matching names against it. Without a base the
expression may start behind any separator; with one it starts at the base. A match is decided by
reading the expression back from its text.
-/
namespace PathGlob.Pattern

def opening (esep : Text) : Text := "(?:^|".toList ++ esep ++ [')']

def inner (sep : Char) : Segment → Text
  | .literal text => Regex.escape [sep] text ++ Regex.escapeSep [sep]
  | .wildcard expression => expression ++ Regex.escapeSep [sep]
  | .globstar => "(.+".toList ++ Regex.escapeSep [sep] ++ ")?".toList

def final (sep : Char) : Segment → Text
  | .literal text => Regex.escape [sep] text
  | .wildcard expression => expression
  | .globstar => ".+".toList

def body (sep : Char) : List Segment → Text
  | [] => []
  | [segment] => final sep segment
  | segment :: rest => inner sep segment ++ body sep rest

def trimBase (sep : Char) (base : Text) : Text :=
  Text.trimRight [sep] (if sep = '\\' then Text.replace ['/'] [sep] base else base)

/-- The separator behind the base is kept in front of segments, and where it is all there is. -/
def baseExpression (sep : Char) (segments : List Segment) (base : Text) : Text :=
  let escaped := Regex.escape [sep] (trimBase sep base)
  '^' :: escaped ++
    (if segments.isEmpty && !escaped.isEmpty then [] else Regex.escapeSep [sep])

def expression (p : Pattern) (base : Option Text) : Text :=
  (match base with
    | none => opening (Regex.escapeSep [p.sep])
    | some base => baseExpression p.sep p.segments base) ++
  body p.sep p.segments ++ ['$']

def readExpression (text : Text) : Except Fault Regex :=
  match Regex.read text with
  | some regex => .ok regex
  | none => .error (.unreadableExpression text)

def accepts (p : Pattern) (base : Option Text) (name : Text) : Except Fault Bool :=
  (readExpression (p.expression base)).map fun regex => regex.search name

/-- A base that is not given at all is not looked at; an empty one is a base. -/
def givenBase (base : Value) : Except Fault (Option Text) :=
  match base with
  | .null => .ok none
  | given => (given.asText .base).map some

def translate (pattern sep base : Value) : Except Fault Text := do
  let p ← obtain pattern sep
  return p.expression (← givenBase base)

def globMatch (name pattern sep base : Value) : Except Fault Bool := do
  let p ← obtain pattern sep
  let base ← givenBase base
  p.accepts base (← name.asText .filename)

def globFilter (names : List Value) (pattern sep base : Value) : Except Fault (List Value) := do
  let p ← obtain pattern sep
  let base ← givenBase base
  let regex ← readExpression (p.expression base)
  names.filterM fun name => return regex.search (← name.asText .filename)

end PathGlob.Pattern
