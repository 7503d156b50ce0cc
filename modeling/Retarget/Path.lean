import Retarget.Fault

/-!
# Paths

A path is a root and the names that lead from it.  Periods that stand for the place itself and
repeated slashes are left out when a path is read; a step back up is kept until the path is
resolved.
-/

namespace Retarget

/-- Where a path starts. -/
inductive Root where
  /-- At the working directory. -/
  | relative
  /-- At the top. -/
  | top
  /-- At the top, written with two slashes. -/
  | doubled
  deriving DecidableEq, Repr

/-- A root and the names that lead from it. -/
structure Path where
  root : Root
  names : List String
  deriving DecidableEq, Repr

namespace Path

/-! ## Texts -/

/-- The parts of a text between slashes. -/
def splitSlashes : List Char → List (List Char)
  | [] => [[]]
  | c :: rest =>
    match splitSlashes rest with
    | [] => [[c]]
    | part :: more => if c == '/' then [] :: part :: more else (c :: part) :: more

/-- The root of a text: exactly two slashes in front are kept as such. -/
def rootOf (s : List Char) : Root :=
  match (s.takeWhile (· == '/')).length with
  | 0 => .relative
  | 2 => .doubled
  | _ => .top

/-- Reads a path. -/
def parse (s : String) : Path :=
  ⟨rootOf s.toList, ((splitSlashes s.toList).map String.ofList).filter fun part =>
    part != "" && part != "."⟩

/-- The text of a root. -/
def rootText : Root → String
  | .relative => ""
  | .top => "/"
  | .doubled => "//"

/-- The text of a path; a path that leads nowhere is a period. -/
def text (p : Path) : String :=
  let body := rootText p.root ++ "/".intercalate p.names
  if body = "" then "." else body

/-! ## Parts -/

/-- Whether a path holds a null character, which no file name does. -/
def hasNull (p : Path) : Bool :=
  p.names.any fun name => name.toList.contains '\x00'

/-- Whether a path does not depend on the working directory. -/
def isAbsolute (p : Path) : Bool := p.root != .relative

/-- The path that leads from the end of one to the end of another. -/
def join (p q : Path) : Path :=
  if q.isAbsolute then q else ⟨p.root, p.names ++ q.names⟩

/-- The path without its last name. -/
def parent (p : Path) : Path :=
  ⟨p.root, p.names.dropLast⟩

/-- The last name. -/
def lastName (p : Path) : String :=
  p.names.getLast?.getD ""

/-- The last name cut before its last period, if the period is neither its first character nor its
last one. -/
def splitName (p : Path) : String × String :=
  let name := p.lastName.toList
  let after := (name.reverse.takeWhile (· != '.')).reverse
  let stem := name.take (name.length - after.length - 1)
  if after.isEmpty || stem.isEmpty || after.length = name.length then (p.lastName, "")
  else (String.ofList stem, String.ofList ('.' :: after))

/-- The end of the last name from its last period on. -/
def suffix (p : Path) : String := p.splitName.2

/-- The last name without its suffix. -/
def stem (p : Path) : String := p.splitName.1

/-! ## Resolving -/

/-- Takes the steps back up in a list of names that starts at the top. -/
def takeStepsUp (names : List String) : List String :=
  names.foldl (fun at_ name => if name = ".." then at_.dropLast else at_ ++ [name]) []

/-- The path from the top, with the steps back up taken. -/
def resolve (workingDirectory p : Path) : Except Fault Path :=
  if p.hasNull then .error .nullInPath
  else .ok ⟨.top, takeStepsUp (workingDirectory.join p).names⟩

/-- Replaces a tilde in front by a home directory; `homeOf` gives that of a user, and under the
empty name that of the user who runs the program. -/
def expandHome (homeOf : String → Option Path) (p : Path) : Except Fault Path :=
  if p.isAbsolute then .ok p
  else match p.names with
    | [] => .ok p
    | name :: rest =>
      match name.toList with
      | '~' :: user =>
        if user.contains '\x00' then .error .nullInPath
        else match homeOf (String.ofList user) with
          | some home => .ok ⟨home.root, home.names ++ rest⟩
          | none => .error .unknownHome
      | _ => .ok p

end Path

end Retarget
