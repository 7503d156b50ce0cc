import Retarget.Assembler.State
import Retarget.Directive
import Retarget.Statement

/-!
# Assembling a line

One source line: its label is bound to the current address, then its directive is obeyed or its
instruction is built by the first rule that matches the line and accepts its operands.

A directive may name another source.  How its lines are assembled is the parameter `nested` here;
the module on programs ties the knot.
-/

namespace Retarget.Assembler

variable [Machine]

/-! ## Directives -/

/-- Loads the architecture of a name from the library. -/
def loadArch (library : Option Library) (name : String) : Attempt Assembler Unit := do
  match library with
  | none => modify (stop (.noLibrary "arch" name) none)
  | some lib =>
    match lib.arch name with
    | .error (.load error) => modify (stop (.notLoaded error) none)
    | .error (.arch error) => modify (stop (.archRefused error) none)
    | .error fault => throw fault
    | .ok data =>
      match InstructionSet.ofDocument name data with
      | .ok set => modify (activate set)
      | .error (.arch error) => modify (stop (.archRefused error) none)
      | .error fault => throw fault

/-- Assembles the lines of a source from the library. -/
def loadSource (library : Option Library) (nested : List String → Attempt Assembler Unit)
    (kind : SourceKind) (name : String) : Attempt Assembler Unit := do
  match library with
  | none => modify (stop (.noLibrary kind.word name) none)
  | some lib =>
    match lib.source kind name with
    | .error (.load error) => modify (stop (.notLoaded error) none)
    | .error fault => throw fault
    | .ok text => nested (Text.lines text)

/-- The fixup of a whole word for a symbol. -/
def wordFixup (address width : Int) (line : Nat) (token : String) : Fixup :=
  { sym := Text.lower token, ofs := address, bitlen := width, bitofs := 0, line := line,
    nbits := width }

/-- The number that a word of a data line holds before symbols are resolved. -/
def dataValue (token : String) : Int :=
  (Literal.parse token).toOption.getD 0

/-- The fixups of the words of a data line from an address on: one for each word that is not a
literal. -/
def dataFixups (address width : Int) (line : Nat) (tokens : List String) : List Fixup :=
  (tokens.mapIdx fun place token => (place, token)).filterMap fun (place, token) =>
    if Literal.isLiteral token then none else some (wordFixup (address + place) width line token)

/-- Emits the words of a data line. -/
def obeyData (tokens : List String) : Attempt Assembler Unit := do
  modify fun a => { a with fixups := a.fixups ++ (dataFixups a.ip a.width a.line tokens).toArray }
  let _ ← emitWords (tokens.map dataValue)

/-- Moves the origin and the next address. -/
def setOrigin (value : Int) (a : Assembler) : Assembler :=
  { a with ip := value, origin := value, image := { a.image with origin := value } }

/-- Changes the width of words, which is at least one. -/
def setWidth (value : Int) (a : Assembler) : Assembler :=
  if value < 1 then a.stop (.invalidWidth value) none
  else { a with width := value, image := { a.image with width := value } }

/-- Obeys a directive with the number that its first argument spells. -/
def withNumber (word token : String) (act : Int → Assembler → Assembler) (a : Assembler) :
    Assembler :=
  match Literal.parse token with
  | .ok value => act value a
  | .error _ => a.stop (.invalidValue word token) none

/-- Obeys a directive. -/
def obey (library : Option Library) (nested : List String → Attempt Assembler Unit)
    (text : String) : Attempt Assembler Unit := do
  let command := Command.parse text
  let word := Text.lower command.word
  match Directive.ofWord? word, command.args with
  | none, _ => modify (warn (.unrecognizedDirective command.word) none)
  | some .string, _ =>
    let _ ← emitWords ((Command.unquote command.rest.toList).map fun c => (c.toNat : Int))
  | some .data, args => obeyData args
  | some .define, name :: value :: _ => modify (bindSymbol (Text.lower name) (.text value))
  | some .define, _ => modify (warn .defineExpects none)
  | some _, [] => modify (warn (.directiveExpects word) none)
  | some .arch, name :: _ => loadArch library name
  | some (.source kind), name :: _ => loadSource library nested kind name
  | some .org, token :: _ => modify (withNumber word token setOrigin)
  | some .len, token :: _ => modify (withNumber word token fun n a => { a with codelen := n })
  | some .width, token :: _ => modify (withNumber word token setWidth)
  | some .align, token :: _ => modify (withNumber word token align)

/-! ## Instructions -/

/-- The outcome of trying rules on a line. -/
inductive Choice where
  /-- A rule built an instruction. -/
  | built (rule : Rule) (instruction : Instruction)
  /-- No rule did; the last rejection is kept. -/
  | none (last : Option Rejection)

/-- Tries rules on a line in order, until one matches and accepts the operands. -/
def choose (arch : Arch) (address line : Int) (text : String) :
    (last : Option Rejection) → List Rule → Except Fault Choice
  | last, [] => .ok (.none last)
  | last, rule :: rest =>
    match rule.captures text with
    | .none => choose arch address line text last rest
    | some operands =>
      match Instruction.build arch rule operands address line with
      | .ok instruction => .ok (.built rule instruction)
      | .error (.rejected rejection) => choose arch address line text (some rejection) rest
      | .error fault => .error fault

/-- What is told about the length of an instruction. -/
def lengthNotice (nbits : Nat) (width : Int) : Except Fault (Option Notice) :=
  if nbits = 0 then .ok (some .zeroLength)
  else if 32 < nbits then .ok (some .tooLong)
  else if width = 0 then .error .zeroModulo
  else if (nbits : Int) % width ≠ 0 then .ok (some (.unaligned nbits))
  else .ok none

/-- Emits a built instruction and queues its fixups. -/
def emitInstruction (instruction : Instruction) : Attempt Assembler Record := do
  if let some notice ← Attempt.ofExcept (lengthNotice instruction.nbits (← get).width) then
    modify (warn notice none)
  modify fun a => { a with fixups := a.fixups ++ instruction.fixups.toArray }
  emit instruction.opcode instruction.nbits

/-- Assembles an instruction in lower case. -/
def assembleInstruction (text : String) : Attempt Assembler (Option Record) := do
  let a ← get
  match a.active with
  | none =>
    set (a.stop .noArchitecture none)
    return none
  | some set =>
    match ← Attempt.ofExcept (choose set.arch a.ip a.line text none set.rules) with
    | .built _ instruction => return some (← emitInstruction instruction)
    | .none last =>
      modify (warn (last.elim (.undecoded text) .rejected) none)
      return none

/-! ## Lines -/

/-- Assembles one line.  The record is given if the line is an instruction that was emitted. -/
def assembleLine (library : Option Library) (nested : List String → Attempt Assembler Unit)
    (text : String) : Attempt Assembler (Option Record) := do
  modify fun a => { a with line := a.line + 1 }
  let statement := Statement.parse text
  if let some name := statement.label then
    modify fun a => a.bindSymbol name (.number a.ip)
  match statement.body with
  | .nothing => return none
  | .directive text =>
    obey library nested text
    return none
  | .instruction text => assembleInstruction text

end Retarget.Assembler
