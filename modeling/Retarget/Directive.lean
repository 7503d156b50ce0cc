import Retarget.Library
import Retarget.Text.Blank
import Retarget.Text.Case

/-!
# Directives

The commands that a program gives to the assembler itself, each a word that starts with a period and
its arguments.
-/

namespace Retarget

/-- A command to the assembler. -/
inductive Directive where
  /-- Binds a symbol to a text. -/
  | define
  /-- Moves the origin and the address of the next word. -/
  | org
  /-- Declares the length of the image. -/
  | len
  /-- Changes the width of words. -/
  | width
  /-- Loads an architecture. -/
  | arch
  /-- Assembles another source in place. -/
  | source (kind : SourceKind)
  /-- Emits numbers and symbols, one word each. -/
  | data
  /-- Emits the code points of a text, one word each. -/
  | string
  /-- Moves on to a multiple of a number. -/
  | align
  deriving DecidableEq, Repr

namespace Directive

/-- The directives by their words. -/
def table : List (String × Directive) := [
  (".define", define), (".org", org), (".len", len), (".width", width), (".arch", arch),
  (".include", source .includes), (".module", source .modules), (".data", data),
  (".string", string), (".align", align)]

/-- The words of all directives. -/
def words : List String :=
  table.map Prod.fst

/-- The directive of a word in lower case. -/
def ofWord? (word : String) : Option Directive :=
  Bindings.find? table word

end Directive

/-- A directive as written. -/
structure Command where
  /-- Its first word. -/
  word : String
  /-- The words after it; a blank at the end of the line leaves an empty one there. -/
  args : List String
  /-- All that follows the first word, without blanks around it. -/
  rest : String
  deriving DecidableEq, Repr

namespace Command

/-- Takes a directive apart. -/
def parse (line : String) : Command :=
  match Text.fields line.toList with
  | [] => ⟨"", [], ""⟩
  | word :: args =>
    ⟨String.ofList word, args.map String.ofList,
      String.ofList (Text.trim (line.toList.drop word.length))⟩

/-- The text of a string argument: what stands between double quotes, or all of it. -/
def unquote (s : List Char) : List Char :=
  match s with
  | '"' :: more => if more.getLast? = some '"' then more.dropLast else s
  | _ => s

end Command

end Retarget
