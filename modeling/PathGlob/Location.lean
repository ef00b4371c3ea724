import PathGlob.Fault

/-!
Paths as text. An absolute path starts with a separator or a drive; a resolved one is a drive and
a list of plain names. A working directory is either an absolute path or the reason there is none,
and that reason only counts where the directory is needed.
-/
namespace PathGlob

abbrev Directory := Except Fault Text

def current : Text := ['.']

def parent : Text := ['.', '.']

structure Location where
  drive : Text
  names : List Text
  deriving DecidableEq, Repr

namespace Location

/-- The piece in front of the first separator that makes a path absolute. -/
def isDrive : Text → Bool
  | [] => true
  | [letter, ':'] => letter.isAlpha
  | _ => false

def isAbsolute (sep path : Text) : Bool := !path.isEmpty && isDrive (Text.first sep path)

def below (sep directory path : Text) : Text := Text.dropEnding sep directory ++ sep ++ path

def checkDirectory (sep directory : Text) : Directory :=
  if isAbsolute sep directory then .ok directory else .error (.relativeDirectory directory)

def hostDirectory (sep host : Text) : Text :=
  if sep = ['/'] then host else Text.replace ['/'] sep host

def anchor (sep : Text) (base : Option Text) (here : Directory) : Directory :=
  match base with
  | none | some [] => here
  | some base =>
      if isAbsolute sep base then .ok base
      else here.map fun directory => below sep directory base

def expand (sep path : Text) (base : Option Text) (here : Directory) : Except Fault Text :=
  if isAbsolute sep path then .ok path
  else (anchor sep base here).map fun directory => below sep directory path

/-- One piece of a path, seen from the names above it, the nearest one first. There is nothing
above the drive. -/
def visit (above : List Text) (piece : Text) : List Text :=
  if piece = [] ∨ piece = current then above
  else if piece = parent then above.tail
  else piece :: above

def ofText (sep full : Text) : Location :=
  let pieces := Text.splitOn sep full
  ⟨pieces.headD [], (pieces.tail.foldl visit []).reverse⟩

def text (sep : Text) (location : Location) : Text :=
  location.drive ++ sep ++ Text.glue sep location.names

def resolve (sep path : Text) (base : Option Text) (here : Directory) :
    Except Fault Location :=
  (expand sep path base here).map (ofText sep)

def normalize (sep path : Text) (base : Option Text) (here : Directory) : Except Fault Text :=
  (resolve sep path base here).map (text sep)

/-- The place that `relative` and `within` compare with: the destination, else the base, else the
working directory. The destination is looked at only here. -/
def reference (sep : Text) (base : Option Text) (destination : Except Fault (Option Text))
    (here : Directory) : Except Fault Location := do
  match ← destination with
  | some place => resolve sep place none here
  | none =>
      match base with
      | none | some [] => here.map (ofText sep)
      | some base => resolve sep base none here

def route : List Text → List Text → List Text
  | name :: target, other :: reference =>
      if name = other then route target reference
      else List.replicate (reference.length + 1) parent ++ name :: target
  | target, reference => List.replicate reference.length parent ++ target

/-- There is no way from one drive to another, so the target stays whole. -/
def describe (sep : Text) (target reference : Location) : Text :=
  if target.drive = reference.drive then
    match route target.names reference.names with
    | [] => current
    | pieces => Text.glue sep pieces
  else target.text sep

def relative (sep path : Text) (base : Option Text) (destination : Except Fault (Option Text))
    (here : Directory) : Except Fault Text := do
  let target ← resolve sep path base here
  let reference ← reference sep base destination here
  return describe sep target reference

def contains (sep directory path : Text) : Bool :=
  path == directory ||
    (if sep.isSuffixOf directory then directory else directory ++ sep).isPrefixOf path

def within (sep path : Text) (base : Option Text) (destination : Except Fault (Option Text))
    (here : Directory) : Except Fault Bool := do
  let target ← resolve sep path base here
  let reference ← reference sep base destination here
  return contains sep (reference.text sep) (target.text sep)

/-- The characters of the separator are trimmed on both sides of the seam. -/
def joinPiece (sep path piece : Text) : Text :=
  Text.trimRight sep path ++ sep ++ Text.trimLeft sep piece

def join (sep path : Text) (pieces : List Text) : Text := pieces.foldl (joinPiece sep) path

def root (sep : Text) (here : Directory) : Except Fault Text :=
  if sep = ['/'] then .ok sep
  else here.map fun directory => Text.first sep directory ++ sep

theorem isAbsolute_nil (sep : Text) : isAbsolute sep [] = false := rfl

theorem expand_of_isAbsolute {sep path : Text} (h : isAbsolute sep path) (base : Option Text)
    (here : Directory) : expand sep path base here = .ok path := by
  simp [expand, h]

theorem route_self (names : List Text) : route names names = [] := by
  induction names with
  | nil => rfl
  | cons name rest ih => simp [route, ih]

theorem join_append (sep path : Text) (xs ys : List Text) :
    join sep path (xs ++ ys) = join sep (join sep path xs) ys := by
  simp [join, List.foldl_append]

end Location

end PathGlob
