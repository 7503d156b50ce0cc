import Retarget.Fixup
import Retarget.Rule

/-!
# Instructions

An instruction is built from the layout of a rule and the operands of a line: every entry of the
layout gives a field, and the fields are put together most significant first.  A field whose operand
names a symbol is zero and becomes a fixup.
-/

namespace Retarget

variable [Machine]

/-- The value of bits, most significant first. -/
def bitsValue (digits : List Bool) : Nat :=
  Radix.value 2 (digits.map Bool.toNat)

/-! ## Fields -/

/-- A symbol that a field waits for. -/
structure Pending where
  sym : String
  relative : Bool
  offset : Int
  deriving DecidableEq, Repr

/-- A field of an instruction. -/
structure Field where
  bits : Nat
  value : Nat
  pending : Option Pending := none
  deriving DecidableEq, Repr

namespace Field

/-- A field of a number, if a field may be so wide and the number fits. -/
def ofValue (bits : Nat) (value : Int) (pending : Option Pending) : Except Fault Field := do
  let bits ← Capacity.fieldBits bits
  if Bits.fits bits value then .ok { bits, value := value.toNat, pending }
  else .error (Fault.showing [value] (.rejected (.tooWide value bits)))

/-- The field that an operand gives to a variable. -/
def ofOperand (v : Variable) (token : String) : Except Fault Field :=
  match v.domain with
  | .tokens names =>
    match tokenIndex? names token with
    | some i => ofValue v.bits i none
    | none => .error (.rejected (.notToken token names))
  | .number relative offset =>
    match Literal.parse token with
    | .ok value => ofValue v.bits value none
    | .error _ => ofValue v.bits 0 (some ⟨token, relative, offset⟩)

/-- The field of a layout entry for the operands of a line. -/
def ofEntry (arch : Arch) (operands : List String) : Entry → Except Fault Field
  | .bits digits => ofValue digits.length (bitsValue digits) none
  | .operand index name =>
    match operands[index]? with
    | none => .error .outOfRange
    | some token =>
      match arch.scope name with
      | none | some (.other .null) => .error (.rejected (.unknownVariable token))
      | some (.other _) => .error (.rejected (.unsupportedVariable name))
      | some (.known v) => ofOperand v token

/-- The opcode that a field makes behind the bits of an opcode. -/
def after (field : Field) (opcode : Nat) : Except Fault Nat := do
  .ok ((← Capacity.shiftUp opcode field.bits).toNat + field.value)

end Field

/-! ## Instructions -/

/-- A built instruction: its bits as one number, their count, and the fields that wait for
symbols. -/
structure Instruction where
  opcode : Nat
  nbits : Nat
  fixups : List Fixup
  deriving DecidableEq, Repr

namespace Instruction

/-- The number of bits of a list of fields. -/
def lengthOf (fields : List Field) : Nat :=
  fields.foldr (fun field n => field.bits + n) 0

/-- The fields of a layout, each put behind an opcode as soon as it is known: the fields, and the
opcode that they make. -/
def fieldsAfter (arch : Arch) (operands : List String) :
    (opcode : Nat) → List Entry → Except Fault (List Field × Nat)
  | opcode, [] => .ok ([], opcode)
  | opcode, entry :: rest => do
    let field ← Field.ofEntry arch operands entry
    let (fields, packed) ← fieldsAfter arch operands (← field.after opcode) rest
    .ok (field :: fields, packed)

/-- The fixups of the fields from bit `bitofs` of an instruction of `nbits` bits on. -/
def fixupsOf (address line : Int) (nbits : Nat) : (bitofs : Nat) → List Field → List Fixup
  | _, [] => []
  | bitofs, field :: rest =>
    (match field.pending with
      | none => []
      | some p => [{
          sym := p.sym, ofs := address, bitlen := field.bits, bitofs := bitofs, line := line,
          iprel := p.relative, ipofs := p.offset, nbits := nbits }]) ++
      fixupsOf address line nbits (bitofs + field.bits) rest

/-- Builds the instruction of a rule for the operands of a line. -/
def build (arch : Arch) (rule : Rule) (operands : List String) (address line : Int) :
    Except Fault Instruction := do
  let (fields, opcode) ← fieldsAfter arch operands 0 rule.layout
  .ok ⟨opcode, lengthOf fields, fixupsOf address line (lengthOf fields) 0 fields⟩

end Instruction

end Retarget
