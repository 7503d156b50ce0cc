import Retarget.Document.Printer
import Retarget.Radix
import Retarget.Text.Blank
import Retarget.Text.Quoted

/-!
# Literals

The numbers that a source line may write: an optional minus sign and decimal digits, or a dollar
sign and hexadecimal digits.  Everything else names a symbol.  Numbers are written back in
hexadecimal with `hexText`.
-/

namespace Retarget

/-- Why a text is not a literal. -/
inductive LiteralError where
  | empty
  | notLiteral (text : String)
  | tooLong (digits : Nat)
  deriving DecidableEq, Repr

namespace LiteralError

/-- The words for the limit on decimal digits. -/
def limitMessage : String :=
  "Exceeds the limit (4300 digits) for integer string conversion"

/-- The words for the way around the limit on decimal digits. -/
def limitAdvice : String :=
  "; use sys.set_int_max_str_digits() to increase the limit"

/-- The words for why a text is not a literal. -/
def message : LiteralError → String
  | empty => "empty literal"
  | notLiteral text => "not a literal: " ++ Text.quoted text
  | tooLong digits =>
    limitMessage ++ ": value has " ++ Radix.decimal digits ++ " digits" ++ limitAdvice

end LiteralError

namespace Literal

/-! ## Reading -/

/-- Reads decimal digits; the sign is not counted among them and leading zeros are. -/
def readDecimal (whole digits : List Char) : Except LiteralError Nat :=
  if digits.isEmpty || !digits.all Radix.isDecimalDigit then
    .error (.notLiteral (String.ofList whole))
  else if Radix.decimalLimit < digits.length then .error (.tooLong digits.length)
  else .ok (Radix.read 10 digits)

/-- Reads hexadecimal digits, of which there may be any number. -/
def readHex (whole digits : List Char) : Except LiteralError Nat :=
  if digits.isEmpty || !digits.all Radix.isHexDigit then .error (.notLiteral (String.ofList whole))
  else .ok (Radix.read 16 digits)

/-- Reads a literal without blanks around it. -/
def readTrimmed (s : List Char) : Except LiteralError Int :=
  match s with
  | [] => .error .empty
  | '$' :: digits => (readHex s digits).map Int.ofNat
  | '-' :: digits => (readDecimal s digits).map fun n => -(n : Int)
  | digits => (readDecimal s digits).map Int.ofNat

/-- The value of a literal; blanks around it do not count. -/
def parse (s : String) : Except LiteralError Int :=
  readTrimmed (Text.trim s.toList)

/-- Whether a text is a literal. -/
def isLiteral (s : String) : Bool :=
  (parse s).toOption.isSome

/-- The number that a value of a document stands for: a whole number stands for itself, anything
else for the literal it spells. -/
def ofDocument : Document → Except LiteralError Int
  | .int n => .ok n
  | other => parse other.plain

/-! ## Writing -/

/-- The number of hexadecimal digits that show a word of `width` bits. -/
def hexDigits (width : Int) : Nat :=
  max 1 ((width + 3) / 4).toNat

/-- Hexadecimal digits of `value` in upper case with zeros in front up to `digits` characters; a
minus sign counts as one of them. -/
def hexText (value : Int) (digits : Nat) : String :=
  let body := (Radix.digits 16 value.natAbs).map Radix.digitChar
  if value < 0 then String.ofList ('-' :: (List.replicate (digits - 1 - body.length) '0' ++ body))
  else String.ofList (List.replicate (digits - body.length) '0' ++ body)

/-- The code points of a text, one word each. -/
def codePoints (s : String) : List Nat :=
  s.toList.map Char.toNat

end Literal

end Retarget
