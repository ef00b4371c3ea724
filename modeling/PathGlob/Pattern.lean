import PathGlob.Text

namespace PathGlob

/-- A wildcard carries its regular expression as text; a globstar stands for whole directories. -/
inductive Segment where
  | literal (text : Text)
  | wildcard (expression : Text)
  | globstar
  deriving DecidableEq, Repr

def globstarText : Text := ['*', '*']

def Segment.text : Segment → Text
  | literal text => text
  | wildcard expression => expression
  | globstar => globstarText

def Segment.isLiteral : Segment → Bool
  | literal _ => true
  | _ => false

def Segment.isWildcard : Segment → Bool
  | wildcard _ => true
  | _ => false

def Segment.isGlobstar : Segment → Bool
  | globstar => true
  | _ => false

structure Pattern where
  source : Text
  segments : List Segment
  sep : Char
  deriving Repr

def Pattern.same (p q : Pattern) : Bool := p.segments == q.segments && p.sep == q.sep

end PathGlob
