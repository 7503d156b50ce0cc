import Retarget.Capacity

/-!
# Architectures

An architecture is a word width, a set of operand variables and a list of rules.  `Arch.ofDocument`
reads one from a document and refuses everything that is not one, the first fault first.
-/

namespace Retarget

variable [Machine]

/-! ## Variables -/

/-- What a variable stands for in a source line. -/
inductive Domain where
  /-- One of these tokens; its place in the list is the value of the field. -/
  | tokens (names : List String)
  /-- A number, or a symbol whose value is taken relative to the instruction if `relative`, less
  `offset`. -/
  | number (relative : Bool) (offset : Int)
  deriving DecidableEq, Repr

/-- An operand variable: a field of `bits` bits. -/
structure Variable where
  name : String
  bits : Nat
  bits_pos : 0 < bits
  domain : Domain
  deriving DecidableEq, Repr

/-- The value of a token: its first place in the list. -/
def tokenIndex? (names : List String) (token : String) : Option Nat :=
  names.findIdx? (· == token)

/-! ## Architectures -/

/-- A rule as written: a format and a bit layout. -/
structure RuleSource where
  format : String
  bits : List Document

/-- A described instruction set. -/
structure Arch where
  name : String
  width : Nat
  width_pos : 0 < width
  vars : List Variable
  rules : List RuleSource

namespace Arch

/-- The word width of an architecture that does not give one. -/
def defaultWidth : Nat := 8

/-- The variable of a name. -/
def find? (arch : Arch) (name : String) : Option Variable :=
  arch.vars.find? (·.name == name)

end Arch

/-! ## Reading -/

/-- A positive whole number. -/
def Document.positive? : Document → Option { n : Nat // 0 < n }
  | .int n => if h : 0 < n then some ⟨n.toNat, Int.pos_iff_toNat_pos.1 h⟩ else none
  | _ => none

/-- Reads a variable; the values of one with tokens must be countable in its field. -/
def Variable.ofDocument (name : String) (entry : Document) : Except Fault Variable :=
  match entry with
  | .object entries =>
    let bits := Document.key entries "bits"
    match bits.positive? with
    | none => .error (.arch (.bitsNotPositive name bits))
    | some ⟨n, pos⟩ =>
      match Document.key entries "toks" with
      | .null =>
        let offset := Document.key entries "ipofs"
        let relative := (Document.key entries "iprel").isGiven
        match if offset.isGiven then offset else .int 0 with
        | .int k => .ok ⟨name, n, pos, .number relative k⟩
        | _ => .error (.arch (.offsetNotInteger name))
      | .list items =>
        match Document.texts? items with
        | some names => do
          let _ ← Capacity.fieldBits n
          .ok ⟨name, n, pos, .tokens names⟩
        | none => .error (.arch (.tokensNotTexts name))
      | _ => .error (.arch (.tokensNotTexts name))
  | _ => .error (.arch (.variableNotObject name))

/-- Reads a rule from its format and its bits. -/
def RuleSource.ofParts (format bits : Document) : Except ArchError RuleSource :=
  match format with
  | .text s =>
    if s = "" then .error .noFormat
    else match bits with
      | .list items => .ok ⟨s, items⟩
      | _ => .error .noLayout
  | _ => .error .noFormat

/-- Reads the rule at a place in the list of rules. -/
def RuleSource.ofDocument (index : Nat) (entry : Document) : Except ArchError RuleSource :=
  match entry with
  | .object entries => ofParts (Document.key entries "fmt") (Document.key entries "bits")
  | _ => .error (.ruleNotObject index)

/-- Reads the rules from a place in the list of rules on. -/
def RuleSource.ofDocuments (index : Nat) : List Document → Except ArchError (List RuleSource)
  | [] => .ok []
  | entry :: rest => do
    let rule ← ofDocument index entry
    let more ← ofDocuments (index + 1) rest
    .ok (rule :: more)

/-- Reads an architecture and gives it a name. -/
def Arch.ofDocument (name : String) (data : Document) : Except Fault Arch :=
  match data with
  | .object entries =>
    match Document.key entries "vars", Document.key entries "rules" with
    | .object vars, .list rules =>
      let given := Document.key entries "width"
      let width := if given.isGiven then given else .int defaultWidth
      match width.positive? with
      | none => .error (.arch (.widthNotPositive width))
      | some ⟨w, pos⟩ => do
        let slots ← vars.mapM fun (key, entry) => Variable.ofDocument key entry
        let rules ← (RuleSource.ofDocuments 0 rules).mapError .arch
        .ok ⟨name, w, pos, slots, rules⟩
    | .object _, _ => .error (.arch .noRules)
    | _, _ => .error (.arch .noVariables)
  | other => .error (.arch (.notObject other))

/-- Reads an architecture from a text. -/
def Arch.ofText (name text : String) : Except Fault Arch :=
  match Document.parse Machine.depth text with
  | .ok data => ofDocument name data
  | .error error => .error (error.fault fun error => .arch (.unreadable name error))

end Retarget
