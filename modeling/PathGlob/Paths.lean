import PathGlob.Argument
import PathGlob.Location

/-!
The path functions on loosely typed arguments. Arguments are read in the order in which their
faults show. A separator that is no text is only noticed where it is put to work.
-/
namespace PathGlob.Paths

def workingDirectory (host sep : Text) (cwd : Value) : Directory :=
  match cwd with
  | .null => Location.checkDirectory sep (Location.hostDirectory sep host)
  | given => (given.asText .cwd).bind (Location.checkDirectory sep)

/-- Without a usable separator no directory is found; an empty one is refused before that shows. -/
def unusableDirectory (cwd : Value) : Fault :=
  match cwd with
  | .null => .notUsable
  | given =>
      match given.asText .cwd with
      | .error fault => fault
      | .ok [] => .relativeDirectory []
      | .ok _ => .notUsable

def unusable (path : Text) (base : Option Text) (cwd : Value) : Fault :=
  if path.isEmpty && (base.getD []).isEmpty then unusableDirectory cwd else .notUsable

def isAbsolute (path sep : Value) : Except Fault Bool := do
  let path ← path.asText .path
  match sep.asSeparator with
  | some sep => return Location.isAbsolute sep path
  | none => if path.isEmpty then return false else throw .notUsable

def expand (host : Text) (path base sep cwd : Value) : Except Fault Text := do
  let path ← path.asText .path
  let base ← base.optionalText .base
  match sep.asSeparator with
  | some sep => Location.expand sep path base (workingDirectory host sep cwd)
  | none => throw (unusable path base cwd)

def normalize (host : Text) (path base sep cwd : Value) : Except Fault Text := do
  let path ← path.asText .path
  let base ← base.optionalText .base
  match sep.asSeparator with
  | some sep => Location.normalize sep path base (workingDirectory host sep cwd)
  | none => throw (unusable path base cwd)

def relative (host : Text) (path base sep destination cwd : Value) : Except Fault Text := do
  let base ← base.optionalText .base
  let path ← path.asText .path
  match sep.asSeparator with
  | some sep =>
      Location.relative sep path base (destination.optionalText .destination)
        (workingDirectory host sep cwd)
  | none => throw (unusable path base cwd)

def within (host : Text) (path base sep destination cwd : Value) : Except Fault Bool := do
  let base ← base.optionalText .base
  let path ← path.asText .path
  match sep.asSeparator with
  | some sep =>
      Location.within sep path base (destination.optionalText .destination)
        (workingDirectory host sep cwd)
  | none => throw (unusable path base cwd)

def join (path : Value) (pieces : List Value) (sep : Value) : Except Fault Text := do
  let path ← path.asText .path
  match sep.asSeparator with
  | some sep => return Location.join sep path (← pieces.mapM (Value.asText .path))
  | none => if pieces.isEmpty then return path else throw .notUsable

def root (host : Text) (sep cwd : Value) : Except Fault Text :=
  match sep.asSeparator with
  | some sep => Location.root sep (workingDirectory host sep cwd)
  | none => .error (unusableDirectory cwd)

end PathGlob.Paths
