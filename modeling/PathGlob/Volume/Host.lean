import PathGlob.Volume.Memory

namespace PathGlob

structure Host where
  nodes : Nodes
  cwd : Text

namespace Host

def keyOf (above : List Text) : Text := (Location.mk [] above.reverse).text ['/']

def follow (nodes : Nodes) (above : List Text) (piece : Text) : Except Refusal (List Text) :=
  match nodes.get (keyOf above) with
  | none => .error .missing
  | some .file => .error .notDirectory
  | some (.directory _) =>
      let next := Location.visit above piece
      if (nodes.get (keyOf next)).isSome then .ok next else .error .missing

def find (host : Host) (path : Text) : Except Refusal Node := do
  if path.isEmpty then throw .missing
  let begin := if ['/'].isPrefixOf path then []
    else (Location.ofText ['/'] host.cwd).names.reverse
  let found ← (Text.splitOn ['/'] path).foldlM (follow host.nodes) begin
  match host.nodes.get (keyOf found) with
  | some node => return node
  | none => throw .missing

def has (host : Host) (path : Text) : Bool := (host.find path).toOption.isSome

def hasDirectory (host : Host) (path : Text) : Bool :=
  (host.find path).toOption.any Node.isDirectory

def list (host : Host) (path : Text) : Except Fault (List Text) := do
  if path.contains '\x00' then throw .zeroInPath
  match host.find path with
  | .ok (.directory names) => return names
  | .ok .file => throw (.refused .notDirectory (.text path))
  | .error reason => throw (.refused reason (.text path))

def volume (host : Host) : Volume where
  has path := .ok (host.has path)
  hasDirectory path := .ok (host.hasDirectory path)
  list := host.list
  workingDirectory sep := .ok (Location.hostDirectory [sep] host.cwd)
  extent := host.nodes.length

def workingDirectory (cwd : Text) (sep : Value) : Except Fault Text :=
  match sep.asSeparator with
  | some sep => .ok (Location.hostDirectory sep cwd)
  | none => .error .notUsable

def pathOf : Value → Except Fault Text
  | .text t => .ok t
  | .bytes t => .ok t
  | .path t _ _ => .ok t
  | .wrapper (.text t) => .ok t
  | .wrapper (.bytes t) => .ok t
  | _ => .error .notUsable

def listedPath : Value → Except Fault Text
  | .null => .ok PathGlob.current
  | path => pathOf path

/-- A fresh host with an empty directory `home`, filled with directories and files; `cwd` is
entered at the end. -/
def create (home : Text) (directories files : List Text) (cwd : Text) : Except Fault Host := do
  let memory ← Memory.build ['/'] (.text home) (.text home :: directories.map .text)
    (files.map .text) []
  return ⟨memory.nodes, ← memory.key cwd⟩

end Host

end PathGlob
