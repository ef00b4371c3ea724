import PathGlob.Argument
import PathGlob.Text.Blank
import PathGlob.Text.Lines

namespace PathGlob

namespace Release

def contentOf {α : Type} (path : Text) (content : Option α) : Except Fault α :=
  match content with
  | some content => .ok content
  | none => .error (.refused .missing (.text path))

def description (text : Text) : Text := Text.plainNewlines text

def isRequirement (line : Text) : Bool := !line.isEmpty && line.head? != some '#'

def requirements (text : Text) : List Text :=
  ((Text.lines text).map Text.strip).filter isRequirement

def statuses : List (Text × Text) :=
  [("alpha".toList, "3 - Alpha".toList),
    ("beta".toList, "4 - Beta".toList),
    ("candidate".toList, "4 - Beta".toList),
    ("final".toList, "5 - Production/Stable".toList)]

def status (stage : Value) : Except Fault Text :=
  if !stage.hashable then .error .notHashable
  else
    match stage with
    | .text name =>
        match statuses.lookup name with
        | some status => .ok status
        | none => .error .unknownKey
    | _ => .error .unknownKey

def version (info : List Value) : Except Fault (Text × Text) :=
  match info with
  | major :: minor :: patch :: more =>
      match more with
      | [] => .error .noSuchIndex
      | stage :: _ => (status stage).map fun status =>
          (Text.glue ['.'] [major.plain, minor.plain, patch.plain], status)
  | _ => .error .noSuchIndex

def current : List Value := [.int 1, .int 0, .int 0, .text "final".toList]

def currentText : Text :=
  Text.glue ['.'] ((current.take 3).map Value.plain)

/-- What the release is made from: the version, the directories with code in them, the texts of
the files that are read, and the names that stand in classifiers. -/
structure Declaration where
  info : List Value
  directories : List Text
  readme : Text
  required : Text
  requiredForTests : Text
  language : Text
  terms : Text

structure Manifest where
  name : Text
  languageRequired : Text
  version : Text
  keywords : Text
  summary : Text
  longDescription : Text
  contentType : Text
  packages : List Text
  required : List Text
  requiredForTests : List Text
  zipSafe : Bool
  classifiers : List Text

def excludedPackages : List Text := ["tests".toList, "tools".toList]

def languageVersions : List Text := ["3", "3.8", "3.9", "3.10", "3.11", "3.12"].map String.toList

/-- The development status comes first, and what the release may be used under is named as the
caller gives it. -/
def classifiers (status language terms : Text) : List Text :=
  ["Development Status :: ".toList ++ status, "Environment :: Console".toList,
    "Intended Audience :: Developers".toList, terms,
    "Operating System :: OS Independent".toList] ++
  (languageVersions.map fun version =>
    "Programming Language :: ".toList ++ language ++ " :: ".toList ++ version) ++
  ["Topic :: Software Development :: Libraries :: ".toList ++ language ++ " Modules".toList]

def manifest (declaration : Declaration) : Except Fault Manifest := do
  let (version, status) ← version declaration.info
  return {
    name := "pathkit".toList
    languageRequired := ">=3.8".toList
    version := version
    keywords := "glob path normalize relative".toList
    summary := "Glob pattern compiler, lazy directory walker, and text based path ".toList ++
      "normalization.".toList
    longDescription := description declaration.readme
    contentType := "text/markdown".toList
    packages := declaration.directories.filter (!excludedPackages.contains ·)
    required := requirements declaration.required
    requiredForTests := requirements declaration.requiredForTests
    zipSafe := false
    classifiers := classifiers status declaration.language declaration.terms }

end Release

end PathGlob
