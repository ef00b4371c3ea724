import PathGlob.Regex

/-!
Reading a regular expression from its text, one character at a time. The reader keeps the groups
that are still open, innermost first. It knows the notation that patterns are written in and
refuses the rest, so it never takes an expression for something else.
-/
namespace PathGlob.Regex

inductive Reading where
  | plain
  | escape
  | group
  | option
  | set
  | noneOf (chars : List Char)
  | escapeInSet (chars : List Char)
  deriving DecidableEq, Repr

/-- One open group: the alternatives before the current one, and its items, the last one first. -/
structure Level where
  before : Option Regex
  items : List Regex
  deriving DecidableEq, Repr

def Level.blank : Level := ⟨none, []⟩

def sequence (items : List Regex) : Regex := items.foldl (fun rest item => seq item rest) nothing

def Level.close (level : Level) : Regex :=
  match level.before with
  | none => sequence level.items
  | some earlier => either earlier (sequence level.items)

structure Reader where
  reading : Reading
  level : Level
  outer : List Level
  deriving DecidableEq, Repr

namespace Reader

def blank : Reader := ⟨.plain, .blank, []⟩

def put (reader : Reader) (item : Regex) : Reader :=
  ⟨.plain, ⟨reader.level.before, item :: reader.level.items⟩, reader.outer⟩

/-- Put `change item` in the place of the last item, where there is one that may be repeated. -/
def alter (reader : Reader) (change : Regex → Option Regex) : Option Reader :=
  match reader.level.items with
  | [] => none
  | item :: items => do
      let changed ← change item
      return ⟨.plain, ⟨reader.level.before, changed :: items⟩, reader.outer⟩

def asStar : Regex → Option Regex
  | one symbol => some (star symbol)
  | _ => none

def asPlus : Regex → Option Regex
  | one symbol => some (plus symbol)
  | _ => none

def asMaybe : Regex → Option Regex
  | star _ | plus _ | maybe _ | start | stop => none
  | item => some (maybe item)

def closeGroup (reader : Reader) : Option Reader :=
  match reader.outer with
  | [] => none
  | level :: outer =>
      some ⟨.plain, ⟨level.before, reader.level.close :: level.items⟩, outer⟩

def openGroup (reader : Reader) : Reader :=
  ⟨.plain, .blank, reader.level :: reader.outer⟩

def turn (reader : Reader) (reading : Reading) : Reader := { reader with reading := reading }

def stepPlain (reader : Reader) : Char → Option Reader
  | '\\' => some (reader.turn .escape)
  | '(' => some (reader.turn .group)
  | ')' => reader.closeGroup
  | '[' => some (reader.turn .set)
  | '{' => none
  | '*' => reader.alter asStar
  | '+' => reader.alter asPlus
  | '?' => reader.alter asMaybe
  | '|' => some ⟨.plain, ⟨some reader.level.close, []⟩, reader.outer⟩
  | '^' => some (reader.put start)
  | '$' => some (reader.put stop)
  | '.' => some (reader.put (one .anyButNewline))
  | c => some (reader.put (one (.char c)))

/-- A letter or digit behind a backslash would name a class or a group. -/
def stepEscape (reader : Reader) (c : Char) : Option Reader :=
  if c.isAlphanum then none else some (reader.put (one (.char c)))

def stepSet (reader : Reader) (chars : List Char) : Char → Option Reader
  | '\\' => some (reader.turn (.escapeInSet chars))
  | ']' => if chars.isEmpty then none else some (reader.put (one (.noneOf chars)))
  | '-' => none
  | '[' => none
  | c => some (reader.turn (.noneOf (chars ++ [c])))

def step (reader : Reader) (c : Char) : Option Reader :=
  match reader.reading with
  | .plain => reader.stepPlain c
  | .escape => reader.stepEscape c
  | .group => if c = '?' then some (reader.turn .option) else reader.openGroup.stepPlain c
  | .option => if c = ':' then some reader.openGroup else none
  | .set => if c = '^' then some (reader.turn (.noneOf [])) else none
  | .noneOf chars => reader.stepSet chars c
  | .escapeInSet chars =>
      if c.isAlphanum then none else some (reader.turn (.noneOf (chars ++ [c])))

def feed (reader : Reader) (text : Text) : Option Reader := text.foldlM step reader

def finish (reader : Reader) : Option Regex :=
  match reader.reading, reader.outer with
  | .plain, [] => some reader.level.close
  | _, _ => none

end Reader

def read (text : Text) : Option Regex := do
  let reader ← Reader.blank.feed text
  reader.finish

theorem Reader.feed_append (reader : Reader) (left right : Text) :
    reader.feed (left ++ right) = (reader.feed left).bind fun reader => reader.feed right := by
  simp [feed, List.foldlM_append]

end PathGlob.Regex
