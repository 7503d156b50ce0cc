import Retarget.Fault

/-!
# Capacity

Numbers, images and texts are held in the store of a machine.  Some lengths cannot be counted on any
machine; how much room there is below that differs from machine to machine, and so does how deep
sources and documents may be nested.  `Machine` names these sizes, and everything that needs room is
defined for all of them.

Each check here says that something can be held, or else for which fault it cannot.  Checked is what
may be far larger than what it is made from: a shifted number, a grown image, a filled field, and
the text or the bytes of many fields.
-/

namespace Retarget

/-! ## Limits -/

namespace Capacity

/-- Every length and every place is below this number. -/
def countBound : Nat := 1 <<< 63

/-- The bits of a digit in the store. -/
def digitBits : Nat := 30

/-- The digits that a number may have: four bytes for each and twenty-four for the number itself can
be counted. -/
def digitLimit : Nat := (countBound - 1 - 24) / 4

/-- The digits of a number in the store. -/
def digitCount (n : Nat) : Nat :=
  n.log2 / digitBits + 1

/-- The digits that hold `n` bits. -/
def digitsFor (n : Nat) : Nat :=
  (n + (digitBits - 1)) / digitBits

end Capacity

/-- What there is room for on a machine.  All of it can be counted, and a number takes no more room
than its text in hexadecimal. -/
class Machine where
  /-- The digits of a number. -/
  digits : Nat
  /-- The words of an image. -/
  words : Nat
  /-- The characters of a text, and the bytes of a file. -/
  text : Nat
  /-- How deep sources may include each other. -/
  nesting : Nat
  /-- How deep the values of a document may be nested. -/
  depth : Nat
  digits_lt : 8 * digits < Capacity.countBound
  words_lt : words < Capacity.countBound
  text_lt : Capacity.digitsFor (4 * text) < digits

namespace UsualMachine

/-- A machine of usual size. -/
scoped instance machine : Machine where
  digits := 1 <<< 27
  words := 1 <<< 25
  text := 1 <<< 25
  nesting := 240
  depth := 990
  digits_lt := by decide
  words_lt := by decide
  text_lt := by decide

end UsualMachine

namespace Capacity

variable [Machine]

/-! ## Numbers -/

/-- Checks that there is room for a number of this many digits. -/
def checkDigits (count : Nat) : Except Fault Unit :=
  if digitLimit < count then .error (.excess .digits)
  else if Machine.digits < count then .error (.excess .room)
  else .ok ()

/-- A number moved up by `n` bits. -/
def shiftUp (value n : Int) : Except Fault Int :=
  if n < 0 then .error .negativeShift
  else if value = 0 then .ok 0
  else do
    checkDigits (digitCount value.natAbs + digitsFor n.toNat)
    .ok (value * (1 <<< n.toNat : Nat))

/-- The number of bits of a field, if a field may be so wide: the power of two above all its values
can be held. -/
def fieldBits (width : Int) : Except Fault Nat :=
  if width < 0 then .error .negativeShift
  else do
    checkDigits (1 + digitsFor width.toNat)
    .ok width.toNat

/-! ## Lists and texts -/

/-- Checks that a list of `size` words can grow to `length` words. -/
def checkGrowth (size length : Nat) : Except Fault Unit :=
  if length ≤ size then .ok ()
  else if countBound ≤ length - size then .error (.excess .count)
  else if Machine.words < length then .error (.excess .room)
  else .ok ()

/-- Checks that there is room for a text of this many characters. -/
def checkText (length : Nat) : Except Fault Unit :=
  if Machine.text < length then .error (.excess .room) else .ok ()

/-- A text, if there is room for it. -/
def holdText (s : String) : Except Fault String := do
  checkText s.length
  .ok s

/-- The place in a list of `size` elements that an index stands for; a negative one counts from the
end. -/
def placeOf (size : Nat) (i : Int) : Except Fault Nat :=
  if i < -(countBound : Int) ∨ (countBound : Int) ≤ i then .error .placeTooLarge
  else
    let place := if i < 0 then i + size else i
    if 0 ≤ place ∧ place < size then .ok place.toNat else .error .outOfRange

end Capacity

end Retarget
