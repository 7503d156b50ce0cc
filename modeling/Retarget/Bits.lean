/-!
# Bits of integers

An integer is an endless row of bits, those of a negative one being set from some place on.  The
operations here take such a row apart without writing down a power of two where none is needed, so
that a field may be far wider than the numbers put into it.
-/

namespace Retarget.Bits

/-- Whether an integer is a number of at most `n` bits. -/
def fits (n : Nat) (value : Int) : Bool :=
  decide (0 ≤ value) && (value == 0 || decide (value.toNat.log2 < n))

/-- The number of the low `n` bits of an integer. -/
def low (n : Nat) (value : Int) : Nat :=
  if fits n value then value.toNat else (value % (1 <<< n : Nat)).toNat

/-- An integer without its low `n` bits. -/
def drop (n : Nat) (value : Int) : Int :=
  value >>> n

end Retarget.Bits
