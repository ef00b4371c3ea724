import PathGlob.Paths

namespace PathGlob

/-- The working directory is kept as it was given and only read when it is needed. -/
structure Path where
  path : Text
  base : Option Text
  sep : Value
  cwd : Value

namespace Path

/-- A base loses one separator at its end, unless it is nothing but the separator. -/
def trimBase (sep : Value) (base : Option Text) : Except Fault (Option Text) :=
  match base with
  | none => .ok none
  | some [] => .ok (some [])
  | some base =>
      match sep with
      | .text s => .ok (some (if base = s then base else Text.dropEnding s base))
      | _ => .error .notUsable

def create (path base sep cwd : Value) : Except Fault Path := do
  let base ← base.optionalText .base
  let path ← path.asText .path
  return ⟨path, ← trimBase sep.orSlash base, sep.orSlash, cwd⟩

def value (p : Path) : Value := .path p.path p.base p.sep

def baseValue (p : Path) : Value :=
  match p.base with
  | none => .null
  | some base => .text base

def same (p : Path) (other : Value) : Bool := p.value.same other

def isAbsolute (p : Path) : Except Fault Bool := Paths.isAbsolute (.text p.path) p.sep

def expand (host : Text) (p : Path) : Except Fault Text :=
  Paths.expand host (.text p.path) p.baseValue p.sep p.cwd

def join (p : Path) (pieces : List Value) : Except Fault Path := do
  let joined ← Paths.join (.text p.path) pieces p.sep
  create (.text joined) p.baseValue p.sep p.cwd

end Path

end PathGlob
