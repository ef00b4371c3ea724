import PathGlob.Argument
import PathGlob.Location
import PathGlob.Regex.Escape
import PathGlob.Pattern

/-!
Compiling a pattern. It is resolved as a path below the root, so it cannot climb out of the
directory that it is used in, and each remaining piece becomes a segment.
-/
namespace PathGlob

/-- Runs of stars are cut down to two; `run` stars stand directly before. -/
def shortenStars : Nat → Text → Text
  | _, [] => []
  | run, c :: rest =>
      if c = '*' then
        if run < 2 then c :: shortenStars (run + 1) rest else shortenStars run rest
      else c :: shortenStars 0 rest

def hasGlobstar : Text → Bool
  | '*' :: '*' :: _ => true
  | _ :: rest => hasGlobstar rest
  | [] => false

def starExpression (sep : Char) : Text := '[' :: '^' :: Regex.escapeSep [sep] ++ [']', '*']

/-- Two stars side by side make the whole piece a globstar. -/
def Segment.ofPiece (sep : Char) (piece : Text) : Segment :=
  if hasGlobstar piece then .globstar
  else if piece.contains '*' then
    .wildcard (Text.glue (starExpression sep)
      ((Text.splitOn ['*'] piece).map (Regex.escape [sep])))
  else .literal piece

def Segment.merge : List Segment → List Segment
  | [] => []
  | segment :: rest =>
      match segment, merge rest with
      | .globstar, .globstar :: more => .globstar :: more
      | segment, more => segment :: more

namespace Pattern

def pieces (sep : Char) (source : Text) : List Text :=
  let path := shortenStars 0 source
  let full := if Location.isAbsolute [sep] path then path else Location.below [sep] [sep] path
  (Location.ofText [sep] full).names

def ofText (sep : Char) (source : Text) : Pattern :=
  ⟨source, Segment.merge ((pieces sep source).map (Segment.ofPiece sep)), sep⟩

def compile (source sep : Value) : Except Fault Pattern := do
  let source ← source.asText .pattern
  if source.isEmpty then throw .emptyPattern
  match sep.orSlash with
  | .text [s] => return ofText s source
  | given => throw (.separatorLength given)

/-- A pattern that is compiled already must not be asked for with another separator. -/
def obtain (pattern sep : Value) : Except Fault Pattern :=
  match pattern with
  | .pattern p =>
      if sep.truthy && !sep.same (.text [p.sep]) then .error (.separatorMismatch p.sep sep)
      else .ok p
  | source => compile source sep

def isMagic (source : Value) : Except Fault Bool := do
  let source ← source.asText .pattern
  return source.contains '*'

def get (p : Pattern) (index : Value) : Except Fault Segment :=
  match index.asInt with
  | none => .error .notAnIndex
  | some i =>
      let position := if i < 0 then i + p.segments.length else i
      if position < 0 then .error .noSuchIndex
      else
        match p.segments[position.toNat]? with
        | some segment => .ok segment
        | none => .error .noSuchIndex

end Pattern

end PathGlob
