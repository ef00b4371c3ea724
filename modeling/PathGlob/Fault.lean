import PathGlob.Value

namespace PathGlob

inductive Argument where
  | path | base | cwd | destination | rootDir | filename | pattern
  deriving DecidableEq, Repr

def Argument.name : Argument → Text
  | path => "path".toList
  | base => "base".toList
  | cwd => "cwd".toList
  | destination => "to".toList
  | rootDir => "root_dir".toList
  | filename => "filename".toList
  | pattern => "pattern".toList

inductive Refusal where
  | missing | notDirectory | denied
  deriving DecidableEq, Repr

def Refusal.message : Refusal → Text
  | missing => "No such file or directory".toList
  | notDirectory => "Not a directory".toList
  | denied => "Permission denied".toList

def Refusal.number : Refusal → Nat
  | missing => 2
  | notDirectory => 20
  | denied => 13

inductive Fault where
  /-- Neither a text nor something that stands for a path. -/
  | notPath (argument : Argument) (kind : Kind)
  /-- Stands for a path, but for one that is no text. -/
  | notText (argument : Argument) (kind : Kind)
  | relativeDirectory (directory : Text)
  | emptyPattern
  | separatorLength (given : Value)
  | separatorMismatch (compiled : Char) (given : Value)
  | fileInTheWay (path : Text)
  | directoryInTheWay (path : Text)
  | immutable
  | refused (reason : Refusal) (path : Value)
  /-- A value used where only a text works. -/
  | notUsable
  /-- Cutting at an empty separator. -/
  | emptySeparator
  | noSuchIndex
  | notAnIndex
  | notHashable
  | unknownKey
  | unreadableExpression (expression : Text)
  /-- No host path holds a zero character. -/
  | zeroInPath

namespace Fault

def message : Fault → Option Text
  | notPath argument kind =>
      some ('\x27' :: argument.name ++
        "' must be a string or path-like object, not ".toList ++ kind.name)
  | notText argument kind =>
      some ('\x27' :: argument.name ++ "' must resolve to a string, not ".toList ++ kind.name)
  | relativeDirectory directory =>
      some ("The working directory must be an absolute path, not '".toList ++ directory ++
        ['\x27'])
  | emptyPattern => some "The pattern cannot be empty".toList
  | separatorLength given =>
      some ("The separator must be a single character, not ".toList ++ given.shown)
  | separatorMismatch compiled given =>
      some ("Pattern was compiled with separator ".toList ++ Text.quoted [compiled] ++
        ", not ".toList ++ given.shown)
  | fileInTheWay path =>
      some ('\x27' :: path ++ "' is a file and cannot be used as a directory".toList)
  | directoryInTheWay path =>
      some ('\x27' :: path ++ "' is a directory and cannot be used as a file".toList)
  | immutable => some "Class is immutable!".toList
  | refused reason _ => some reason.message
  | _ => none

/-- A refused reading is a matter of the file system; all other faults are the caller's. -/
def isRefusal : Fault → Bool
  | refused .. => true
  | _ => false

end Fault

end PathGlob
