import Retarget.Radix

/-!
# Decimal digits of binary fractions

A double is `mantissa * 2 ^ exponent`.  Its shortest decimal is the one with the fewest digits among
those that are nearer to it than to any other double; of several with that many digits it is the
nearest.  A decimal with a fixed number of digits is the nearest on its grid, a tie going to the
even last digit.  All comparisons are made in exact arithmetic.
-/

namespace Retarget.Decimal

/-! ## Binary fractions -/

/-- A non-negative binary fraction `mantissa * 2 ^ exponent`. -/
structure Binary where
  mantissa : Nat
  exponent : Int
  deriving DecidableEq

/-- Decimal digits with a scale: `digits * 10 ^ scale`. -/
structure Scaled where
  digits : Nat
  scale : Int
  deriving DecidableEq

/-- A fraction of natural numbers. -/
structure Ratio where
  num : Nat
  den : Nat

namespace Ratio

/-- Whether one fraction is below another. -/
def lt (a b : Ratio) : Bool := decide (a.num * b.den < b.num * a.den)

/-- The distance between two fractions. -/
def distance (a b : Ratio) : Ratio :=
  let x := a.num * b.den
  let y := b.num * a.den
  ⟨if x < y then y - x else x - y, a.den * b.den⟩

/-- The fraction `n * base ^ e`. -/
def ofPower (n base : Nat) (e : Int) : Ratio :=
  if 0 ≤ e then ⟨n * base.pow e.toNat, 1⟩ else ⟨n, base.pow (-e).toNat⟩

/-- The whole part of a fraction divided by `10 ^ scale`. -/
def floorAt (a : Ratio) (scale : Int) : Nat :=
  if 0 ≤ scale then a.num / (a.den * Nat.pow 10 scale.toNat)
  else a.num * Nat.pow 10 (-scale).toNat / a.den

end Ratio

namespace Binary

/-- The value of a binary fraction. -/
def toRatio (b : Binary) : Ratio := Ratio.ofPower b.mantissa 2 b.exponent

/-- The smallest exponent of a double. -/
def leastExponent : Int := -1074

/-- The smallest mantissa of a double that is not close to zero. -/
def leastMantissa : Nat := 1 <<< 52

/-- The fraction halfway to the next double below. -/
def lowerHalf (b : Binary) : Ratio :=
  if b.mantissa = leastMantissa ∧ leastExponent < b.exponent then
    Ratio.ofPower (4 * b.mantissa - 1) 2 (b.exponent - 2)
  else Ratio.ofPower (2 * b.mantissa - 1) 2 (b.exponent - 1)

/-- The fraction halfway to the next double above. -/
def upperHalf (b : Binary) : Ratio := Ratio.ofPower (2 * b.mantissa + 1) 2 (b.exponent - 1)

/-- Whether a decimal is read back as this double: it lies between the two halves, and on one of
them only if the mantissa is even. -/
def readsBack (b : Binary) (d : Scaled) : Bool :=
  let x := Ratio.ofPower d.digits 10 d.scale
  let inside := b.lowerHalf.lt x && x.lt b.upperHalf
  let onEdge := !x.lt b.lowerHalf && !b.upperHalf.lt x
  if b.mantissa % 2 == 0 then onEdge else inside

/-- The number of digits before the decimal point of a positive binary fraction, or minus the number
of zeros after it: the least `k` with `b < 10 ^ k`. -/
def magnitude (b : Binary) : Int :=
  let r := b.toRatio
  if r.num < r.den then
    -- below one: count the zeros after the point
    let zeros := (List.range 400).takeWhile fun n => decide (r.num * Nat.pow 10 (n + 1) < r.den)
    Int.negOfNat zeros.length
  else
    Int.ofNat (Radix.digits 10 (r.num / r.den)).length

/-! ## Rounding to a number of digits -/

/-- The nearest decimal of `count` significant digits, ties to even. -/
def rounded (b : Binary) (count : Nat) : Scaled :=
  let scale := b.magnitude - count
  let r := b.toRatio
  let down := r.floorAt scale
  let below := (Ratio.ofPower down 10 scale).distance r
  let above := (Ratio.ofPower (down + 1) 10 scale).distance r
  let up := above.lt below || (!below.lt above && down % 2 == 1)
  let digits := if up then down + 1 else down
  if digits = Nat.pow 10 count then ⟨Nat.pow 10 (count - 1), scale + 1⟩ else ⟨digits, scale⟩

/-- The decimal of `count` digits next to a binary fraction that is read back as it, if there is
one. -/
def readBackAt (b : Binary) (count : Nat) : Option Scaled :=
  let scale := b.magnitude - count
  let r := b.toRatio
  let down : Scaled := ⟨r.floorAt scale, scale⟩
  let up : Scaled := ⟨down.digits + 1, scale⟩
  let below := (Ratio.ofPower down.digits 10 scale).distance r
  let above := (Ratio.ofPower up.digits 10 scale).distance r
  match b.readsBack down, b.readsBack up with
  | false, false => none
  | true, false => some down
  | false, true => some up
  | true, true =>
    if above.lt below || (!below.lt above && down.digits % 2 == 1) then some up else some down

/-- The shortest decimal that is read back as a positive double; seventeen digits always suffice. -/
def shortest (b : Binary) : Scaled :=
  ((List.range 17).findSome? fun n => b.readBackAt (n + 1)).getD (b.rounded 17)

end Binary

/-! ## Doubles -/

/-- What a double is: a number with a sign, an infinity with a sign, or no number. -/
inductive Parts where
  | finite (negative : Bool) (magnitude : Binary)
  | infinite (negative : Bool)
  | notANumber

/-- Takes a double apart. -/
def parts (x : Float) : Parts :=
  let bits := x.toBits.toNat
  let negative := bits >>> 63 == 1
  let e : Nat := (bits >>> 52) % (1 <<< 11)
  let f : Nat := bits % (1 <<< 52)
  if e = 2047 then (if f = 0 then .infinite negative else .notANumber)
  else if e = 0 then .finite negative ⟨f, -1074⟩
  else .finite negative ⟨(1 <<< 52) + f, (e : Int) - 1075⟩

/-- The double nearest to `digits * 10 ^ exponent`. -/
def toFloat (digits : Nat) (exponent : Int) : Float :=
  let size : Int := (Radix.digits 10 digits).length
  if digits = 0 then 0.0
  else if 310 < size + exponent then 1.0 / 0.0
  else if size + exponent < -400 then 0.0
  else Float.ofScientific digits (decide (exponent < 0)) exponent.natAbs

/-- The double nearest to a natural number: fifty-three bits of it, a tie going to the even ones. -/
def ofNat (negative : Bool) (n : Nat) : Parts :=
  let shift := n.log2 - 52
  let kept := n >>> shift
  let lost := n - kept <<< shift
  let up := 1 <<< shift < 2 * lost ∨ 1 <<< shift = 2 * lost ∧ kept % 2 = 1
  let mantissa := if up then kept + 1 else kept
  if 1 <<< 1024 ≤ mantissa <<< shift then .infinite negative else .finite negative ⟨mantissa, shift⟩

/-- The double nearest to `digits * 10 ^ power`, with a sign.  From `10 ^ 310` on it is infinite. -/
def nearest (negative : Bool) (digits power : Nat) : Parts :=
  if digits = 0 then .finite negative ⟨0, 0⟩
  else if 310 < (Radix.digits 10 digits).length + power then .infinite negative
  else ofNat negative (digits * Nat.pow 10 power)

/-! ## Layout -/

/-- How the digits of a decimal are laid out. -/
structure Style where
  /-- The least power of ten that is written with an exponent. -/
  exponentFrom : Int
  /-- Whether a whole number shows that it is a real. -/
  pointZero : Bool

/-- The shortest text of a real: an exponent from `1e16` on, and a point in every other number. -/
def Style.full : Style := ⟨16, true⟩

/-- The brief text of a real with six digits: an exponent from `1e+06` on, and no needless point. -/
def Style.brief : Style := ⟨6, false⟩

/-- Removes the zeros at the end of a list of digits, but for the first digit. -/
def dropTrailingZeros (ds : List Nat) : List Nat :=
  let kept := (ds.reverse.dropWhile (· == 0)).reverse
  if kept.isEmpty then [0] else kept

/-- The digits of a decimal, without the zeros at their end. -/
def significant (d : Scaled) : List Char :=
  (dropTrailingZeros (Radix.digits 10 d.digits)).map Radix.digitChar

/-- Digits with a point after the first of several. -/
def withPoint : List Char → List Char
  | c :: d :: more => c :: '.' :: d :: more
  | ds => ds

/-- The text of an exponent: a sign and at least two digits. -/
def exponentText (e : Int) : List Char :=
  let ds := Radix.decimalDigits e.natAbs
  ['e', if e < 0 then '-' else '+'] ++ (if ds.length < 2 then '0' :: ds else ds)

/-- Lays out a decimal without its sign. -/
def Style.layout (style : Style) (d : Scaled) : List Char :=
  let ds := significant d
  -- the power of ten of the first digit
  let power : Int := d.scale + (Radix.digits 10 d.digits).length - 1
  if power < -4 ∨ style.exponentFrom ≤ power then withPoint ds ++ exponentText power
  else if power < 0 then
    ['0', '.'] ++ List.replicate ((-power).toNat - 1) '0' ++ ds
  else
    let whole := ds.take (power.toNat + 1)
    let fraction := ds.drop (power.toNat + 1)
    let padded := whole ++ List.replicate (power.toNat + 1 - whole.length) '0'
    if fraction.isEmpty then (if style.pointZero then padded ++ ['.', '0'] else padded)
    else padded ++ '.' :: fraction

/-- The text of a double in a style, from the decimal that `pick` chooses for its magnitude. -/
def Style.write (style : Style) (pick : Binary → Scaled) : Parts → String
  | .notANumber => "nan"
  | .infinite negative => if negative then "-inf" else "inf"
  | .finite negative b =>
    let d := if b.mantissa = 0 then ⟨0, 0⟩ else pick b
    String.ofList ((if negative then ['-'] else []) ++ style.layout d)

/-- The shortest text that is read back as the same double. -/
def shortestText (x : Float) : String :=
  Style.full.write Binary.shortest (parts x)

/-- The text of a double with six significant digits. -/
def briefText (x : Parts) : String :=
  Style.brief.write (Binary.rounded · 6) x

end Retarget.Decimal
