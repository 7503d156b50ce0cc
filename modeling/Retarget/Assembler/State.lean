import Retarget.Instruction
import Retarget.Record

/-!
# The state of an assembler

What an assembler knows between two lines, and the steps that every line is made of: telling a
notice, binding a symbol and emitting words.
-/

namespace Retarget

variable [Machine]

/-- What an assembler knows between two lines. -/
structure Assembler where
  /-- The address of the next word. -/
  ip : Int := 0
  origin : Int := 0
  /-- The number of lines read. -/
  line : Nat := 0
  /-- The declared length of the image. -/
  codelen : Int := 0
  width : Int := Arch.defaultWidth
  aborted : Bool := false
  active : Option InstructionSet := none
  symbols : Symbols := []
  image : Image := { width := Arch.defaultWidth }
  diagnostics : Array Diagnostic := #[]
  records : Array Record := #[]
  fixups : Array Fixup := #[]

namespace Assembler

/-! ## Architectures -/

/-- Makes an instruction set the active one; words get its width. -/
def activate (set : InstructionSet) (a : Assembler) : Assembler :=
  { a with
    active := some set
    width := set.arch.width
    image := { a.image with width := set.arch.width } }

/-- An assembler that has read nothing, with an instruction set if there is one. -/
def fresh (active : Option InstructionSet) : Assembler :=
  match active with
  | none => {}
  | some set => activate set {}

/-- The rules of the active instruction set. -/
def rules (a : Assembler) : List Rule :=
  match a.active with
  | none => []
  | some set => set.rules

/-! ## Diagnostics -/

/-- The line that a diagnostic is about: the given one unless it is zero, else the current one. -/
def lineOr (a : Assembler) (line : Option Int) : Int :=
  match line with
  | some n => if n = 0 then a.line else n
  | none => a.line

/-- Tells a notice. -/
def warn (notice : Notice) (line : Option Int) (a : Assembler) : Assembler :=
  { a with diagnostics := a.diagnostics.push ⟨notice, a.lineOr line, false⟩ }

/-- Tells a notice and stops. -/
def stop (notice : Notice) (line : Option Int) (a : Assembler) : Assembler :=
  { a with
    diagnostics := a.diagnostics.push ⟨notice, a.lineOr line, true⟩
    aborted := true }

/-- Tells a list of reports. -/
def warnAll (reports : List Report) (a : Assembler) : Assembler :=
  reports.foldl (fun a report => a.warn report.notice (some report.line)) a

/-! ## Symbols -/

/-- Binds a symbol. -/
def bindSymbol (name : String) (value : SymbolValue) (a : Assembler) : Assembler :=
  { a with symbols := Bindings.bind a.symbols name value }

/-! ## Words -/

/-- Makes an attempt on the image. -/
def onImage {α : Type} (attempt : Attempt Image α) : Attempt Assembler α :=
  Attempt.on Assembler.image (fun image a => { a with image }) attempt

/-- Writes the next word. -/
def store (value : Int) : Attempt Assembler Unit := do
  onImage (Image.put (← get).ip value)
  modify fun a => { a with ip := a.ip + 1 }

/-- Notes that the current line emits `nbits` bits at the current address. -/
def note (nbits : Int) : Attempt Assembler Record := do
  let a ← get
  let record : Record := { line := a.line, offset := a.ip, nbits }
  set { a with records := a.records.push record }
  return record

/-- Emits the bits of an instruction, cut into words. -/
def emit (opcode nbits : Nat) : Attempt Assembler Record := do
  let record ← note nbits
  let width := (← get).width
  let count ← Attempt.ofExcept (wordCount nbits width)
  let bits ← Attempt.ofExcept (Capacity.fieldBits width)
  Attempt.each (fun (word : Nat) => store word) (splitWords bits count.toNat opcode)
  return record

/-- Emits numbers, one word each. -/
def emitWords (values : List Int) : Attempt Assembler Record := do
  let record ← note ((← get).width * values.length)
  Attempt.each store values
  return record

/-- Moves the address up to a multiple of `n`, which may not exceed the declared length. -/
def align (n : Int) (a : Assembler) : Assembler :=
  if n < 1 ∨ a.codelen < n then a.stop .invalidAlignment none
  else { a with ip := -(-a.ip / n) * n }

end Assembler

end Retarget
