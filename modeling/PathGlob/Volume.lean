import PathGlob.Argument

namespace PathGlob

/-- No listing is longer, and no chain of nested directories deeper, than `extent`. -/
structure Volume where
  has : Text → Except Fault Bool
  hasDirectory : Text → Except Fault Bool
  list : Text → Except Fault (List Text)
  workingDirectory : Char → Except Fault Text
  extent : Nat

namespace Volume

/-- The same tree, with every listing led by the names of the directory itself and its parent. -/
def withDots (volume : Volume) : Volume :=
  { volume with
    list := fun path => (volume.list path).map fun names => ['.'] :: ['.', '.'] :: names
    extent := volume.extent + 2 }

def listAt (volume : Volume) (given : Value) (path : Except Fault Text) :
    Except Fault (List Text) := do
  match volume.list (← path) with
  | .error (.refused reason _) => throw (.refused reason given)
  | answer => answer

end Volume

end PathGlob
