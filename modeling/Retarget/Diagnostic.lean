import Retarget.Fault

/-!
# Diagnostics

A notice is something worth telling about a line; a diagnostic is a notice with its line, and is
fatal if assembly stops there.
-/

namespace Retarget

/-- Something worth telling about a line. -/
inductive Notice where
  | unrecognizedDirective (word : String)
  | defineExpects
  | directiveExpects (directive : String)
  | invalidValue (directive token : String)
  | invalidWidth (value : Int)
  | invalidAlignment
  | noLibrary (kind name : String)
  | notLoaded (error : LoadError)
  | archRefused (error : ArchError)
  | noArchitecture
  | rejected (rejection : Rejection)
  | undecoded (line : String)
  | zeroLength
  | tooLong
  | unaligned (nbits : Nat)
  | failure (fault : Fault)
  | belowOrigin (address origin : Int)
  | symbolNotFound (symbol : String)
  | symbolNotNumeric (symbol value : String)
  | symbolTooWide (symbol : String) (value bits : Int)
  /-- A notice in the caller's own words. -/
  | remark (text : String)

namespace Notice

/-- The words for a notice. -/
def message : Notice → String
  | unrecognizedDirective word => "Unrecognized directive: " ++ word
  | defineExpects => "Directive .define expects NAME VALUE"
  | directiveExpects directive => "Directive " ++ directive ++ " expects an argument"
  | invalidValue directive token => "Invalid value for " ++ directive ++ ": '" ++ token ++ "'"
  | invalidWidth value => "Invalid word width " ++ Radix.decimal value
  | invalidAlignment => "Invalid alignment value"
  | noLibrary kind name => "Could not load " ++ kind ++ " '" ++ name ++ "': no loader configured"
  | notLoaded error => error.message
  | archRefused error => error.message
  | noArchitecture => "Need to load .arch first"
  | rejected rejection => rejection.message
  | undecoded line => "Could not decode instruction: " ++ line
  | zeroLength => "Opcode had zero length"
  | tooLong => "Opcodes > 32 bits not supported"
  | unaligned nbits => "Opcode was not word-aligned (" ++ Radix.decimal nbits ++ " bits)"
  | failure fault => "Exception during assembly: " ++ fault.message
  | belowOrigin address origin => (Fault.belowOrigin address origin).message
  | symbolNotFound symbol => "Symbol '" ++ symbol ++ "' not found"
  | symbolNotNumeric symbol value =>
    "Symbol " ++ symbol ++ " has non-numeric value '" ++ value ++ "'"
  | symbolTooWide symbol value bits =>
    "Symbol " ++ symbol ++ " (" ++ Radix.decimal value ++ ") does not fit in " ++
      Radix.decimal bits ++ " bits"
  | remark text => text

/-- The numbers that a notice shows and that no earlier check keeps short. -/
def numbers : Notice → List Int
  | belowOrigin address origin => [address, origin]
  | symbolTooWide _ value bits => [value, bits]
  | _ => []

/-- A notice, if all its numbers have a decimal text. -/
def shown (notice : Notice) : Except Fault Notice :=
  if notice.numbers.all Radix.hasDecimal then .ok notice else .error .decimalTooLong

end Notice

/-- A notice about a line. -/
structure Report where
  notice : Notice
  line : Int

/-- What is told about a line, and whether assembly stops there. -/
structure Diagnostic where
  notice : Notice
  line : Int
  fatal : Bool

/-- The words for a diagnostic. -/
def Diagnostic.message (d : Diagnostic) : String := d.notice.message

/-- The word for how serious a diagnostic is. -/
def Diagnostic.severity (d : Diagnostic) : String :=
  if d.fatal then "error" else "warning"

end Retarget
