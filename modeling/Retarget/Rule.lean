import Retarget.Arch
import Retarget.Format

/-!
# Rules

A rule of an architecture, made ready for use: its format as segments, its slots by name, and its
bit layout with every entry checked.  `InstructionSet` is an architecture with all of its rules.
-/

namespace Retarget

variable [Machine]

/-- An entry of a bit layout. -/
inductive Entry where
  /-- These bits, most significant first. -/
  | bits (digits : List Bool)
  /-- The operand at a place of the format, which belongs to the variable of this name. -/
  | operand (index : Nat) (name : String)
  deriving DecidableEq, Repr

/-- What a name may stand for where rules are compiled. -/
inductive Definition where
  | known (v : Variable)
  /-- A value that defines no variable. -/
  | other (value : Document)

/-- A rule made ready for use. -/
structure Rule where
  source : RuleSource
  segments : List Format.Segment
  names : List String
  layout : List Entry

namespace Rule

/-! ## Compiling -/

/-- The kind of operand that a variable takes. -/
def operandKind (v : Variable) : Format.Operand :=
  match v.domain with
  | .tokens _ => .token
  | .number .. => .number

/-- The first slot of a format that does not name a variable is a fault. -/
def checkSlots (scope : String → Option Definition) : List String → Except ArchError Unit
  | [] => .ok ()
  | name :: rest =>
    match scope name with
    | none => .error (.unknownVariable name)
    | some (.other .null) => .error (.unknownVariable name)
    | some (.other value) => .error (.unsupportedVariable value)
    | some (.known _) => checkSlots scope rest

/-- The kind of operand at a slot. -/
def kindAt (scope : String → Option Definition) (name : String) : Format.Operand :=
  match scope name with
  | some (.known v) => operandKind v
  | _ => .token

/-- The bits of a text of zeros and ones that is not empty. -/
def bits? (s : List Char) : Option (List Bool) :=
  if s.isEmpty || !s.all (fun c => c == '0' || c == '1') then none else some (s.map (· == '1'))

/-- Reads an entry of the layout of a rule with these slots. -/
def entryOf (format : String) (names : List String) (entry : Document) : Except ArchError Entry :=
  match entry with
  | .text s =>
    match bits? s.toList with
    | some digits => .ok (.bits digits)
    | none => .error (.badBits format s)
  | .int n =>
    match if 0 ≤ n then names[n.toNat]? else none with
    | some name => .ok (.operand n.toNat name)
    | none => .error (.badOperand format n names.length)
  | other => .error (.badEntry format other)

/-- Makes a rule ready for use where `scope` says what names stand for. -/
def compile (scope : String → Option Definition) (source : RuleSource) : Except ArchError Rule := do
  let pieces := Format.pieces source.format.toList
  let names := Format.slotNames pieces
  checkSlots scope names
  let layout ← source.bits.mapM (entryOf source.format names)
  .ok ⟨source, Format.segments (kindAt scope) pieces, names, layout⟩

/-! ## Use -/

/-- The operands of a line that the rule matches. -/
def captures (rule : Rule) (line : String) : Option (List String) :=
  (Format.captures rule.segments line.toList).map (·.map String.ofList)

/-- The pattern text of a rule. -/
def pattern (rule : Rule) : String :=
  Format.pattern rule.segments

/-- The first word of a rule in lower case. -/
def mnemonic (rule : Rule) : String :=
  Text.lower ((Text.words rule.source.format).headD "")

end Rule

/-! ## Instruction sets -/

/-- What a name stands for in an architecture. -/
def Arch.scope (arch : Arch) (name : String) : Option Definition :=
  (arch.find? name).map .known

/-- The rules of an architecture made ready for use. -/
def Arch.compile (arch : Arch) : Except ArchError (List Rule) :=
  arch.rules.mapM (Rule.compile arch.scope)

/-- An architecture with its rules made ready for use. -/
structure InstructionSet where
  arch : Arch
  rules : List Rule
  compiled : arch.compile = .ok rules

/-- The instruction set of an architecture whose rules are all well formed. -/
def InstructionSet.ofArch (arch : Arch) : Except ArchError InstructionSet :=
  match h : arch.compile with
  | .ok rules => .ok ⟨arch, rules, h⟩
  | .error error => .error error

/-- The instruction set that a document describes. -/
def InstructionSet.ofDocument (name : String) (data : Document) :
    Except Fault InstructionSet := do
  (InstructionSet.ofArch (← Arch.ofDocument name data)).mapError .arch

end Retarget
