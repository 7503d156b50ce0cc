import Retarget.Bindings
import Retarget.Diagnostic
import Retarget.Image

/-!
# Fixups

A fixup is a field of an emitted instruction that waits for the value of a symbol.  The field was
emitted as zeros, so the value is put in by flipping bits.  `resolveAll` does this for a list of
fixups once all symbols are known, and tells which of them could not be filled or do not fit.
-/

namespace Retarget

variable [Machine]

/-! ## Symbols -/

/-- The value of a symbol: the address of a label, or the text of a definition. -/
inductive SymbolValue where
  | number (n : Int)
  | text (s : String)
  deriving DecidableEq, Repr

namespace SymbolValue

/-- The number that a symbol stands for. -/
def toNumber? : SymbolValue → Option Int
  | number n => some n
  | text s => (Literal.parse s).toOption

/-- The value as it was written. -/
def written : SymbolValue → String
  | number n => Radix.decimal n
  | text s => s

/-- The symbol value that a document gives; `null` gives none. -/
def ofDocument? : Document → Option SymbolValue
  | .null => none
  | .int n => some (.number n)
  | other => some (.text other.plain)

end SymbolValue

/-- The symbols of a program. -/
abbrev Symbols := Bindings SymbolValue

/-! ## Fields -/

/-- A field that waits for a symbol.  The instruction is at address `ofs` and has `nbits` bits; the
field is its `bitlen` bits from `bitofs` on, counted from the most significant one.  A relative
field takes the distance of the symbol from `ofs + ipofs`. -/
structure Fixup where
  sym : String
  ofs : Int
  bitlen : Int
  bitofs : Int
  line : Int
  iprel : Bool := false
  ipofs : Int := 0
  nbits : Int := 0
  deriving DecidableEq, Repr

namespace Fixup

/-- The value of the field for a value of the symbol. -/
def adjust (fix : Fixup) (value : Int) : Int :=
  if fix.iprel then value - (fix.ofs + fix.ipofs) else value

/-- The length of the instruction, at least up to the end of the field. -/
def length (fix : Fixup) : Int :=
  if fix.nbits = 0 then fix.bitofs + fix.bitlen else fix.nbits

/-- The words of the instruction that a value of the field changes, by their place in it. -/
def patches (fix : Fixup) (width : Int) (value : Int) : Except Fault (List (Nat × Nat)) := do
  let needed ← wordCount fix.length width
  let placed ← Capacity.shiftUp value (fix.length - fix.bitofs - fix.bitlen)
  let bits ← Capacity.fieldBits width
  if placed = 0 then .ok []
  else
    let words := splitWords bits (max 1 needed).toNat placed
    .ok ((words.mapIdx fun k word => (k, word)).filter fun (_, word) => word != 0)

/-- Puts a value into the field. -/
def apply (fix : Fixup) (value : Int) : Attempt Image Unit := fun image =>
  match fix.patches image.width value with
  | .error fault => (.error fault, image)
  | .ok patches =>
    Attempt.each (fun (k, word) => Image.flip (fix.ofs + (k : Nat)) (word : Nat)) patches image

/-! ## Resolving -/

/-- What symbols make of a fixup: nothing for a reason, or a value. -/
inductive Verdict where
  | skip (notice : Notice)
  | fill (value : Int)

/-- What symbols make of a fixup in an image that starts at `origin`. -/
def judge (symbols : String → Option SymbolValue) (origin : Int) (fix : Fixup) : Verdict :=
  if fix.ofs < origin then .skip (.belowOrigin fix.ofs origin)
  else match symbols fix.sym with
    | none => .skip (.symbolNotFound fix.sym)
    | some value =>
      match value.toNumber? with
      | none => .skip (.symbolNotNumeric fix.sym value.written)
      | some n => .fill (fix.adjust n)

/-- Whether a value is told not to fit into a field of `bitlen` bits: neither it nor its negative is
a number of so many bits. -/
def overflows (bitlen : Nat) (value : Int) : Bool :=
  !Bits.fits bitlen value.natAbs

end Fixup

/-- How far a list of fixups is resolved. -/
structure Resolution where
  image : Image
  reports : List Report := []
  resolved : Nat := 0

namespace Resolution

/-- Tells a notice. -/
def report (notice : Notice) (line : Int) : Attempt Resolution Unit := do
  let notice ← Attempt.ofExcept notice.shown
  modify fun r => { r with reports := r.reports ++ [⟨notice, line⟩] }

/-- Makes an attempt on the image. -/
def onImage {α : Type} (attempt : Attempt Image α) : Attempt Resolution α :=
  Attempt.on Resolution.image (fun image r => { r with image }) attempt

/-- Resolves one fixup. -/
def resolve (symbols : String → Option SymbolValue) (fix : Fixup) : Attempt Resolution Unit := do
  match fix.judge symbols (← get).image.origin with
  | .skip notice => report notice fix.line
  | .fill value =>
    let low ← Attempt.ofExcept (lowBits fix.bitlen value)
    if Fixup.overflows fix.bitlen.toNat value then
      report (.symbolTooWide fix.sym value fix.bitlen) fix.line
    onImage (fix.apply low)
    modify fun r => { r with resolved := r.resolved + 1 }

/-- Resolves fixups in order. -/
def resolveAll (symbols : String → Option SymbolValue) (fixups : List Fixup) :
    Attempt Resolution Unit :=
  Attempt.each (resolve symbols) fixups

end Resolution

end Retarget
