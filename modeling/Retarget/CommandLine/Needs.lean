import Retarget.CommandLine.Run

/-!
# What a run needs to see

A run is a function of the files that are there.  This module says which places of the file tree it
may look at, so that they can be read beforehand: the places on the way of a path, and the paths at
which the documents that a source names are looked for.
-/

namespace Retarget.CommandLine

variable [Machine]

/-- The places on the way of names from a place on, the last one included. -/
def placesFrom (place : List String) : List String → List (List String)
  | [] => [place]
  | name :: rest =>
    place :: placesFrom (if name = ".." then place.dropLast else place ++ [name]) rest

/-- The places on the way of a path. -/
def placesOf (workingDirectory path : Path) : List (List String) :=
  placesFrom [] (workingDirectory.join path).names

/-- A document that a source names. -/
inductive Reference where
  | arch (name : String)
  | source (kind : SourceKind) (name : String)
  deriving DecidableEq, Repr

/-- The document that a line names. -/
def reference? (line : String) : Option Reference :=
  match (Statement.parse line).body with
  | .directive text =>
    let command := Command.parse text
    match Directive.ofWord? (Text.lower command.word), command.args with
    | some .arch, name :: _ => some (.arch name)
    | some (.source kind), name :: _ => some (.source kind name)
    | _, _ => none
  | _ => none

/-- The documents that a source names. -/
def references (text : String) : List Reference :=
  (Text.lines text).filterMap reference?

/-- The paths at which a document is looked for. -/
def pathsOf (search : Search) (tree : FileTree) : Reference → List Path
  | .arch name => (search.candidates tree (search.archFilename name) []).toOption.getD []
  | .source .includes name => (search.candidates tree name []).toOption.getD []
  | .source .modules name =>
    (search.candidates tree (search.moduleFilename name) search.moduleDirectories).toOption.getD []

/-- The search that a command line leads to, and the paths that it names itself. -/
def firstPaths (s : Surroundings) (arguments : List String) : Option (Search × List Path) :=
  match Options.parse arguments with
  | .error _ => none
  | .ok options =>
    let source := (options.source.filter (· != "")).map Path.parse
    match searchOf s source options with
    | .error _ => none
    | .ok search =>
      let archPaths := match options.arch with
        | some name => Path.parse name :: pathsOf search s.tree (.arch name)
        | none => []
      let target := match options.output with
        | .file path => [path]
        | _ => []
      some (search, source.toList ++ archPaths ++ target)

end Retarget.CommandLine
