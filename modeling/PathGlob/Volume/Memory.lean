import PathGlob.Paths
import PathGlob.Volume

/-!
A volume in memory, built from paths of files and directories. Each node is filed under its
resolved path, and a directory holds its names in the order in which they were added.
-/
namespace PathGlob

inductive Node where
  | file
  | directory (names : List Text)
  deriving DecidableEq, Repr

def Node.isDirectory : Node → Bool
  | file => false
  | directory _ => true

abbrev Nodes := List (Text × Node)

namespace Nodes

def get (nodes : Nodes) (key : Text) : Option Node := nodes.lookup key

def addName (nodes : Nodes) (key name : Text) : Nodes :=
  nodes.map fun entry =>
    if entry.1 = key then
      match entry.2 with
      | .directory names => (key, .directory (names ++ [name]))
      | .file => entry
    else entry

def place (sep : Text) (asDirectory : Bool) : Nodes → Text → List Text → Except Fault Nodes
  | nodes, _, [] => .ok nodes
  | nodes, above, name :: rest =>
      let child := Location.joinPiece sep above name
      let directory := asDirectory || !rest.isEmpty
      match nodes.get child with
      | none =>
          let node := if directory then Node.directory [] else .file
          place sep asDirectory (nodes.addName above name ++ [(child, node)]) child rest
      | some .file =>
          if directory then .error (.fileInTheWay child)
          else place sep asDirectory nodes child rest
      | some (.directory _) =>
          if directory then place sep asDirectory nodes child rest
          else .error (.directoryInTheWay child)

end Nodes

structure Memory where
  sep : Text
  cwd : Value
  nodes : Nodes
  denied : List Text

namespace Memory

def here (memory : Memory) : Directory :=
  (memory.cwd.asText .cwd).bind (Location.checkDirectory memory.sep)

def key (memory : Memory) (path : Text) : Except Fault Text :=
  Location.normalize memory.sep path none memory.here

def blank (sep : Text) (cwd : Value) : Except Fault Memory := do
  let memory : Memory := ⟨sep, cwd, [], []⟩
  let root ← Location.root sep memory.here
  return { memory with nodes := [(root, .directory [])] }

def add (asDirectory : Bool) (memory : Memory) (name : Value) : Except Fault Memory := do
  let name ← name.asText .path
  let location ← Location.resolve memory.sep name none memory.here
  let top := location.drive ++ memory.sep
  let nodes := if (memory.nodes.get top).isSome then memory.nodes
    else memory.nodes ++ [(top, .directory [])]
  return { memory with nodes := ← nodes.place memory.sep asDirectory top location.names }

def deny (memory : Memory) (name : Value) : Except Fault Memory := do
  let key ← memory.key (← name.asText .path)
  return { memory with denied := memory.denied ++ [key] }

def build (sep : Text) (cwd : Value) (directories files denied : List Value) :
    Except Fault Memory := do
  let memory ← blank sep cwd
  let memory ← directories.foldlM (add true) memory
  let memory ← files.foldlM (add false) memory
  denied.foldlM deny memory

def defaultDirectory (sep : Text) : Text := if sep = ['/'] then sep else 'C' :: ':' :: sep

/-- With an empty separator nothing can be added: `fault` stands in the way of every name. -/
def buildEmpty (fault : Fault) (cwd : Value) (names denied : List Value) :
    Except Fault Memory := do
  let memory : Memory := ⟨['/'], cwd, [(['/'], .directory [])], []⟩
  match names with
  | [] => denied.foldlM deny memory
  | name :: _ =>
      discard (Location.expand memory.sep (← name.asText .path) none memory.here)
      throw fault

/-- A separator that is no text only gets past the root when it counts as not given. -/
def create (sep cwd : Value) (directories files denied : List Value) : Except Fault Memory :=
  match sep, cwd with
  | .null, .null => build ['/'] (.text ['/']) directories files denied
  | .null, cwd => build ['/'] cwd directories files denied
  | .text [], .null =>
      buildEmpty .emptySeparator (.text (defaultDirectory [])) (directories ++ files) denied
  | .text [], cwd => buildEmpty .emptySeparator cwd (directories ++ files) denied
  | .text sep, .null => build sep (.text (defaultDirectory sep)) directories files denied
  | .text sep, cwd => build sep cwd directories files denied
  | _, .null => .error .notUsable
  | sep, cwd =>
      if sep.truthy then .error (Paths.unusableDirectory cwd)
      else buildEmpty .notUsable cwd (directories ++ files) denied

def find (memory : Memory) (path : Text) : Except Fault (Option Node) :=
  (memory.key path).map memory.nodes.get

def has (memory : Memory) (path : Text) : Except Fault Bool :=
  (memory.find path).map Option.isSome

def hasDirectory (memory : Memory) (path : Text) : Except Fault Bool :=
  (memory.find path).map fun node => node.any Node.isDirectory

def list (memory : Memory) (path : Text) : Except Fault (List Text) := do
  let key ← memory.key path
  match memory.nodes.get key with
  | none => throw (.refused .missing (.text path))
  | some .file => throw (.refused .notDirectory (.text path))
  | some (.directory names) =>
      if memory.denied.contains key then throw (.refused .denied (.text path))
      else return names

def volume (memory : Memory) : Volume where
  has := memory.has
  hasDirectory := memory.hasDirectory
  list := memory.list
  workingDirectory _ := memory.cwd.asText .cwd
  extent := memory.nodes.length

end Memory

end PathGlob
