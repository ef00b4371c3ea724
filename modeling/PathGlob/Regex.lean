import PathGlob.Text

/-!
Regular expressions over characters, and whether a text has a match. Only single characters are
repeated. All matches are followed at once: a set of places in the text is turned into the set of
places where a match from one of them can end, so no text takes long.
-/
namespace PathGlob

inductive Symbol where
  | char (c : Char)
  | anyButNewline
  | noneOf (chars : List Char)
  deriving DecidableEq, Repr

def Symbol.accepts : Symbol → Char → Bool
  | char c, x => x == c
  | anyButNewline, x => x != '\n'
  | noneOf chars, x => !chars.contains x

inductive Regex where
  | nothing
  | one (symbol : Symbol)
  | star (symbol : Symbol)
  | plus (symbol : Symbol)
  | maybe (inner : Regex)
  | seq (left right : Regex)
  | either (left right : Regex)
  | start
  | stop
  deriving DecidableEq, Repr

/-- A set of places in a text: one mark for each place from the start on, up to the last place in
the set. -/
abbrev Marks := List Bool

namespace Marks

def cons (mark : Bool) (marks : Marks) : Marks :=
  if mark || !marks.isEmpty then mark :: marks else []

def union : Marks → Marks → Marks
  | [], right => right
  | left, [] => left
  | a :: left, b :: right => (a || b) :: union left right

def advance (symbol : Symbol) : Bool → Text → Marks → Marks
  | reached, c :: text, mark :: marks =>
      cons reached (advance symbol (mark && symbol.accepts c) text marks)
  | reached, _, _ => cons reached []

def sweep (symbol : Symbol) : Bool → Text → Marks → Marks
  | reached, [], marks => cons (reached || marks.headD false) []
  | reached, c :: text, marks =>
      let here := reached || marks.headD false
      if !here && marks.isEmpty then []
      else cons here (sweep symbol (here && symbol.accepts c) text marks.tail)

/-- The place at the end of the text, and the one in front of a newline that ends it. -/
def atStop : Text → Marks → Marks
  | _, [] => []
  | [], mark :: _ => cons mark []
  | c :: text, mark :: marks => cons (mark && c == '\n' && text.isEmpty) (atStop text marks)

def all (text : Text) : Marks := true :: text.map fun _ => true

def ends : Text → Marks → Bool
  | _, [] => false
  | [], mark :: _ => mark
  | _ :: text, _ :: marks => ends text marks

end Marks

namespace Regex

/-- Where the matches end that begin at a marked place. -/
def spread : Regex → Text → Marks → Marks
  | nothing, _, marks => marks
  | one symbol, text, marks => Marks.advance symbol false text marks
  | star symbol, text, marks => Marks.sweep symbol false text marks
  | plus symbol, text, marks =>
      Marks.sweep symbol false text (Marks.advance symbol false text marks)
  | maybe inner, text, marks => Marks.union (inner.spread text marks) marks
  | seq left right, text, marks =>
      match left.spread text marks with
      | [] => []
      | reached => right.spread text reached
  | either left right, text, marks =>
      Marks.union (left.spread text marks) (right.spread text marks)
  | start, _, marks => Marks.cons (marks.headD false) []
  | stop, text, marks => Marks.atStop text marks

def search (regex : Regex) (text : Text) : Bool := (regex.spread text (Marks.all text)).any id

def fullMatch (regex : Regex) (text : Text) : Bool :=
  Marks.ends text (regex.spread text [true])

end Regex

end PathGlob
