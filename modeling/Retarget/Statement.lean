import Retarget.Text.Blank
import Retarget.Text.Case
import Retarget.Text.Word

/-!
# Statements

A source line is a statement: an optional label, then a directive, an instruction or nothing.
Comments run from a semicolon to the end of the line.
-/

namespace Retarget

/-- What a line asks for besides its label. -/
inductive Body where
  | nothing
  /-- A directive with its arguments, as written. -/
  | directive (text : String)
  /-- An instruction in lower case. -/
  | instruction (text : String)
  deriving DecidableEq, Repr

/-- A source line, taken apart. -/
structure Statement where
  /-- The label in lower case. -/
  label : Option String
  body : Body
  deriving DecidableEq, Repr

namespace Statement

/-- A text without its comments, of which the first has begun if `inside`. -/
def dropComments (inside : Bool) : List Char → List Char
  | [] => []
  | c :: rest =>
    if c == '\n' then c :: dropComments false rest
    else if inside || c == ';' then dropComments true rest
    else c :: dropComments false rest

/-- Whether a text starts as a directive. -/
def isDirective (s : List Char) : Bool :=
  s.head? == some '.'

/-- The label in front of a text, and what follows its colon. -/
def splitLabel? (s : List Char) : Option (List Char × List Char) :=
  let word := s.takeWhile Text.isWord
  match word, s.dropWhile Text.isWord with
  | _ :: _, ':' :: rest => some (word, rest)
  | _, _ => none

/-- What a text without comments, blanks around it and labels asks for. -/
def bodyOf (s : List Char) : Body :=
  if isDirective s then .directive (String.ofList s)
  else if s.isEmpty then .nothing
  else .instruction (Text.lower (String.ofList s))

/-- Takes a source line apart.  A directive at the start of a line has no label. -/
def parse (line : String) : Statement :=
  let s := Text.trim (dropComments false line.toList)
  if isDirective s then ⟨none, bodyOf s⟩
  else match splitLabel? s with
    | some (word, rest) => ⟨some (Text.lower (String.ofList word)), bodyOf (Text.trim rest)⟩
    | none => ⟨none, bodyOf s⟩

end Statement

end Retarget
