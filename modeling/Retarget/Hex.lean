import Retarget.Capacity
import Retarget.Literal

/-!
# Hexadecimal fields

Numbers in hexadecimal, filled with zeros up to the width of a field.  A field is as wide as the
words that it shows need, and its width can be written down.
-/

namespace Retarget.Hex

variable [Machine]

/-- The characters of a field of this many digits, if a field may be so wide. -/
def fieldWidth (digits : Int) : Except Fault Nat :=
  if !Radix.hasDecimal digits then .error .decimalTooLong
  else if digits < 0 then .error (.negativeField digits)
  else if Capacity.countBound ≤ digits.toNat then .error .fieldTooWide
  else do
    Capacity.checkText digits.toNat
    .ok digits.toNat

/-- A number in a field of this many digits. -/
def field (value digits : Int) : Except Fault String := do
  Capacity.holdText (Literal.hexText value (← fieldWidth digits))

/-- The fields of words of `width` bits, if there is room for all of them with a character between
two. -/
def wordFields (width : Int) (words : List Nat) : Except Fault (List String) :=
  if words.isEmpty then .ok []
  else do
    let digits ← fieldWidth (Literal.hexDigits width)
    Capacity.checkText (words.length * (digits + 1) - 1)
    .ok (words.map fun (word : Nat) => Literal.hexText word digits)

end Retarget.Hex
