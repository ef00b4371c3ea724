import PathGlob.Walk

namespace PathGlob

structure Glob where
  pattern : Pattern
  root : Text
  cwd : Option Directory

namespace Glob

variable {α : Type}

def create (pattern root sep cwd : Value) : Except Fault Glob := do
  let pattern ← Pattern.obtain pattern sep
  let root ← root.optionalText .rootDir
  let cwd := match cwd with
    | .null => none
    | given => some (given.asText .cwd)
  return ⟨pattern, root.getD current, cwd⟩

def start (glob : Glob) (volume : Volume) : List Call × Except Fault Text :=
  Walk.start volume glob.pattern.sep glob.root glob.cwd

def launch (glob : Glob) (volume : Volume) (walk : Nat → List Frame → Run α) : Run α :=
  let (calls, base) := glob.start volume
  let asked := calls.map Event.call
  match base with
  | .error fault => ⟨asked, .raised fault⟩
  | .ok base =>
      let segments := glob.pattern.segments
      let run := walk (Walk.fuel volume segments) [⟨base, segments⟩]
      ⟨asked ++ run.events, run.outcome⟩

def run (glob : Glob) (volume : Volume) (hooks : Hooks α) : Run α :=
  glob.launch volume (Walk.run volume hooks glob.pattern.sep)

/-- The walk until `wanted` values are taken; it does not even start when none is wanted. -/
def take (glob : Glob) (volume : Volume) (hooks : Hooks α) (wanted : Nat) : Run α :=
  if wanted = 0 then ⟨[], .paused⟩
  else glob.launch volume fun fuel => Walk.take volume hooks glob.pattern.sep fuel wanted

def runAll (volume : Volume) (pattern root sep cwd : Value) : Run Text :=
  match create pattern root sep cwd with
  | .error fault => ⟨[], .raised fault⟩
  | .ok glob => glob.run volume .plain

def matchesOf (run : Run α) : Except Fault (List α) :=
  match run.outcome with
  | .raised fault => .error fault
  | _ => .ok (Walk.yields run.events)

end Glob

end PathGlob
