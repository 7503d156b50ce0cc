import Retarget.Path

/-!
# File trees

The files that a program can see, as a function of their place, with the working directory and the
home directories from which paths are understood.  Names and paths have a limited length.
-/

namespace Retarget

/-- What stands at a place. -/
inductive Node where
  | file (bytes : List UInt8)
  | directory

/-- What stands at each place, given by the names that lead there from the top. -/
structure FileTree where
  node : List String → Option Node
  workingDirectory : Path
  /-- The home directory of a user, and under the empty name that of the user who runs the
  program. -/
  homeOf : String → Option Path

namespace FileTree

/-- The bytes that a name may have. -/
def nameLimit : Nat := 255

/-- The bytes that a path may have. -/
def pathLimit : Nat := 4095

/-- Why a path leads nowhere. -/
inductive Astray where
  | absent
  | notDirectory
  | nameTooLong

/-- Follows names from a place; every place that is left must be a directory, and no name may be too
long for one. -/
def follow (tree : FileTree) : List String → List String → Except Astray (List String)
  | place, [] => .ok place
  | place, name :: rest =>
    match tree.node place with
    | none => .error .absent
    | some (.file _) => .error .notDirectory
    | some .directory =>
      if nameLimit < name.utf8ByteSize then .error .nameTooLong
      else follow tree (if name = ".." then place.dropLast else place ++ [name]) rest

/-- The place that a path leads to, and what stands there. -/
def locate (tree : FileTree) (path : Path) : Except Fault (List String × Option Node) :=
  if path.hasNull then .error .nullInPath
  else if pathLimit < path.text.utf8ByteSize then .error (.file (.nameTooLong path.text))
  else match tree.follow [] (tree.workingDirectory.join path).names with
    | .ok place => .ok (place, tree.node place)
    | .error .absent => .error (.file (.notFound path.text))
    | .error .notDirectory => .error (.file (.notDirectory path.text))
    | .error .nameTooLong => .error (.file (.nameTooLong path.text))

/-- Whether a path leads to a file.  That it leads nowhere is an answer, that it is too long is
none. -/
def isFile (tree : FileTree) (path : Path) : Except Fault Bool :=
  match tree.locate path with
  | .ok (_, some (.file _)) => .ok true
  | .error (.file (.nameTooLong text)) => .error (.file (.nameTooLong text))
  | _ => .ok false

/-- The bytes of a file. -/
def read (tree : FileTree) (path : Path) : Except Fault (List UInt8) :=
  match tree.locate path with
  | .ok (_, some (.file bytes)) => .ok bytes
  | .ok (_, some .directory) => .error (.file (.isDirectory path.text))
  | .ok (_, none) => .error (.file (.notFound path.text))
  | .error fault => .error fault

/-- The place at which a file can be written. -/
def writable (tree : FileTree) (path : Path) : Except Fault (List String) :=
  match tree.locate path with
  | .ok (_, some .directory) => .error (.file (.isDirectory path.text))
  | .ok (place, _) => .ok place
  | .error fault => .error fault

/-- The text of a file. -/
def readText (tree : FileTree) (path : Path) : Except Fault String := do
  (Text.ofFile (← tree.read path)).mapError .decoding

end FileTree

end Retarget
