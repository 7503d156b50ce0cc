import Retarget.Arch
import Retarget.FileTree
import Retarget.Library

/-!
# Searching for documents

A search looks for documents in an ordered list of directories and is the library of what it finds.
-/

namespace Retarget

variable [Machine]

/-- Where and under which names documents are looked for. -/
structure Search where
  /-- The directories, resolved. -/
  directories : List Path
  archSuffix : String := ".json"
  moduleSuffix : String := ".asm"
  /-- Directories inside those that are searched, in which modules may be too. -/
  moduleDirectories : List String := ["modules"]

namespace Search

/-- The directories of a colon-separated list. -/
def splitList (list : String) : List Path :=
  ((list.splitOn ":").filter (· != "")).map Path.parse

/-- A directory to be searched, resolved; it must be given. -/
def directoryOf (tree : FileTree) (path : Option Path) : Except Fault Path :=
  match path with
  | none => .error .noPath
  | some path => do Path.resolve tree.workingDirectory (← Path.expandHome tree.homeOf path)

/-- The resolved directories of a list of paths, or else the working directory. -/
def directoriesOf (tree : FileTree) (paths : List (Option Path)) : Except Fault (List Path) := do
  let resolved ← paths.mapM (directoryOf tree)
  if resolved.isEmpty then
    .ok [← Path.resolve tree.workingDirectory ⟨.relative, []⟩]
  else .ok resolved

/-- The places where a file may be, in the order of the search. -/
def candidates (search : Search) (tree : FileTree) (filename : String) (inside : List String) :
    Except Fault (List Path) := do
  let requested ← Path.expandHome tree.homeOf (Path.parse filename)
  if requested.isAbsolute then .ok [requested]
  else .ok (search.directories.flatMap fun directory =>
    directory.join requested ::
      inside.map fun sub => (directory.join (Path.parse sub)).join requested)

/-- The first of these places at which there is a file. -/
def firstFile (tree : FileTree) : List Path → Except Fault (Option Path)
  | [] => .ok none
  | place :: rest => do
    if ← tree.isFile place then .ok (some place) else firstFile tree rest

/-- The first place at which a file is found. -/
def find (search : Search) (tree : FileTree) (kind filename : String) (inside : List String) :
    Except Fault Path :=
  if filename = "" then .error (.load ⟨kind, filename, "empty name"⟩)
  else do
    let places ← search.candidates tree filename inside
    match ← firstFile tree places with
    | some place => .ok place
    | none =>
      let searched := ", ".intercalate (search.directories.map Path.text)
      .error (.load ⟨kind, filename, "not found in " ++ searched⟩)

/-- The text of a file that was found; a file that cannot be opened after all is not loaded. -/
def readFound (tree : FileTree) (kind : String) (place : Path) : Except Fault String :=
  match tree.readText place with
  | .error (.file error) => .error (.load ⟨kind, place.text, error.message⟩)
  | result => result

/-- The file name of an architecture. -/
def archFilename (search : Search) (name : String) : String :=
  if search.archSuffix.toList.isSuffixOf name.toList then name else name ++ search.archSuffix

/-- The file name of a module. -/
def moduleFilename (search : Search) (name : String) : String :=
  if (Path.parse name).suffix = "" then name ++ search.moduleSuffix else name

/-- Whether a value is an object with the two entries of an architecture. -/
def looksLikeArch : Document → Bool
  | .object entries => Bindings.has entries "vars" && Bindings.has entries "rules"
  | _ => false

/-- The description of an architecture. -/
def loadArch (search : Search) (tree : FileTree) (name : String) : Except Fault Document := do
  let filename := search.archFilename name
  let place ← search.find tree "arch file" filename []
  let text ← readFound tree "arch file" place
  match Document.parse Machine.depth text with
  | .error error => .error (error.fault fun error =>
      .load ⟨"arch file", filename, "invalid JSON: " ++ error.message⟩)
  | .ok data =>
    if looksLikeArch data then .ok data
    else .error (.load ⟨"arch file", filename, "expected an object with \"vars\" and \"rules\""⟩)

/-- The text of a source. -/
def loadSource (search : Search) (tree : FileTree) (kind : SourceKind) (name : String) :
    Except Fault String :=
  match kind with
  | .includes => do
    readFound tree "include" (← search.find tree "include" name [])
  | .modules => do
    readFound tree "module"
      (← search.find tree "module" (search.moduleFilename name) search.moduleDirectories)

/-- The library of what a search finds in a file tree. -/
def library (search : Search) (tree : FileTree) : Library where
  arch := search.loadArch tree
  source := search.loadSource tree

end Search

/-- Reads an architecture from a file and gives it the name of the file. -/
def Arch.ofFile (tree : FileTree) (path : Path) : Except Fault Arch := do
  Arch.ofText path.stem (← tree.readText path)

end Retarget
