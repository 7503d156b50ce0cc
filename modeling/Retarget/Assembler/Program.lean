import Retarget.Assembler.Line

/-!
# Assembling a program

Lines are assembled in order until one is fatal; a line that fails for any other reason is fatal
too.  The lines of an included source are assembled in the same way in place of the line that names
it.  `finish` then resolves the symbols and renders the records.
-/

namespace Retarget.Assembler

variable [Machine]

/-- Makes an attempt; if it fails, the fault is told and assembly stops. -/
def guarded {α : Type} (attempt : Attempt Assembler α) (a : Assembler) : Assembler :=
  match attempt.runFrom a with
  | (.ok _, b) => b
  | (.error fault, b) => b.stop (.failure fault) none

/-- Takes lines in order, each by `step`, until assembly has stopped. -/
def takeLines (step : String → Attempt Assembler (Option Record)) :
    List String → Assembler → Assembler
  | [], a => a
  | line :: rest, a => if a.aborted then a else takeLines step rest (guarded (step line) a)

/-- Assembles the lines of an included source, in which sources may be included `depth` deep. -/
def assembleNested (library : Option Library) : (depth : Nat) → List String →
    Attempt Assembler Unit
  | 0, _ => throw .nesting
  | depth + 1, lines =>
    modify (takeLines (assembleLine library (assembleNested library depth)) lines)

/-- Assembles one line of a program. -/
def step (library : Option Library) (line : String) : Attempt Assembler (Option Record) :=
  assembleLine library (assembleNested library Machine.nesting) line

/-- Assembles the lines of a program until one is fatal. -/
def assembleLines (library : Option Library) (lines : List String) (a : Assembler) : Assembler :=
  takeLines (step library) lines a

/-- Obeys a directive of a program. -/
def obeyDirective (library : Option Library) (text : String) : Attempt Assembler Unit :=
  obey library (assembleNested library Machine.nesting) text

/-! ## Finishing -/

/-- Resolves the fixups. -/
def resolveFixups : Attempt Assembler Unit := fun a =>
  let (result, reached) :=
    (Resolution.resolveAll (Bindings.find? a.symbols) a.fixups.toList).runFrom { image := a.image }
  (result, { a with image := reached.image }.warnAll reached.reports)

/-- Renders the records. -/
def renderRecords : Attempt Assembler Unit := fun a =>
  let (result, records, reports) := Record.renderAll a.image true a.records.toList
  (result, { a with records := records.toArray }.warnAll reports)

/-- Resolves the fixups, renders the records and fills the image up to its declared length. -/
def finish : Attempt Assembler Unit := do
  resolveFixups
  renderRecords
  let a ← get
  let image ← Attempt.ofExcept (a.image.pad a.codelen)
  set { a with image, fixups := #[] }

/-- Assembles a program and finishes it. -/
def assemble (library : Option Library) (text : String) : Attempt Assembler Unit := do
  modify (assembleLines library (Text.lines text))
  finish

end Retarget.Assembler
