import PathGlob.Path

namespace PathGlob

structure Session where
  host : Text
  path : Path
  expanded : Option Text
  normalized : Option Text

inductive Request where
  | properties
  | text
  | display
  | isAbsolute
  | expand
  | normalize
  | within (destination : Value)
  | relative (destination : Value)
  | join (pieces : List Value)
  | equal (other : Value)
  | distinct (others : List Value)
  | changeDirectory (directory : Text)
  | assign

inductive Answer where
  | done
  | text (t : Text)
  | truth (b : Bool)
  | comparison (equal unequal : Bool)
  | count (n : Nat)
  | path (p : Path)

namespace Session

def fresh (host : Text) (path : Path) : Session := ⟨host, path, none, none⟩

def expand (s : Session) : Except Fault Text × Session :=
  match s.expanded with
  | some known => (.ok known, s)
  | none =>
      match s.path.expand s.host with
      | .ok found => (.ok found, { s with expanded := some found })
      | .error fault => (.error fault, s)

/-- The expanded form is found first and kept, also when normalizing it fails. -/
def normalize (s : Session) : Except Fault Text × Session :=
  match s.normalized with
  | some known => (.ok known, s)
  | none =>
      match s.expand with
      | (.error fault, s) => (.error fault, s)
      | (.ok full, s) =>
          match Paths.normalize s.host (.text full) .null s.path.sep s.path.cwd with
          | .ok found => (.ok found, { s with normalized := some found })
          | .error fault => (.error fault, s)

def compared {α : Type} (s : Session) (compare : Text → Except Fault α) :
    Except Fault α × Session :=
  let (found, s) := s.normalize
  (found.bind compare, s)

def within (s : Session) (destination : Value) : Except Fault Bool × Session :=
  s.compared fun found =>
    Paths.within s.host (.text found) s.path.baseValue s.path.sep destination s.path.cwd

def relative (s : Session) (destination : Value) : Except Fault Text × Session :=
  s.compared fun found =>
    Paths.relative s.host (.text found) s.path.baseValue s.path.sep destination s.path.cwd

def answer (s : Session) : Request → Except Fault Answer × Session
  | .properties => (.ok (.path s.path), s)
  | .text => (.ok (.text s.path.path), s)
  | .display => (.ok (.text s.path.value.shown), s)
  | .isAbsolute => (s.path.isAbsolute.map .truth, s)
  | .expand => let (found, s) := s.expand; (found.map .text, s)
  | .normalize => let (found, s) := s.normalize; (found.map .text, s)
  | .within destination => let (found, s) := s.within destination; (found.map .truth, s)
  | .relative destination => let (found, s) := s.relative destination; (found.map .text, s)
  | .join pieces =>
      match s.path.join pieces with
      | .ok joined => (.ok (.path joined), fresh s.host joined)
      | .error fault => (.error fault, s)
  | .equal other => (.ok (.comparison (s.path.same other) !(s.path.same other)), s)
  | .distinct others => ((s.path.value.distinctWith others).map .count, s)
  | .changeDirectory directory => (.ok .done, { s with host := directory })
  | .assign => (.error .immutable, s)

def answers (s : Session) : List Request → List (Except Fault Answer)
  | [] => []
  | request :: rest =>
      let (found, s) := s.answer request
      found :: answers s rest

end Session

end PathGlob
