/-!
# Sets of code points

A large set of characters is written as the increasing list of its boundaries: the first code point
inside, the first outside again, and so on.  ASCII is answered by short rules elsewhere; the lists
here start above it.
-/

namespace Retarget.Text

/-- Membership in `[b₀, b₁) ∪ [b₂, b₃) ∪ …` for increasing boundaries `b₀, b₁, …`. -/
def inBounds : List Nat → Nat → Bool
  | [], _ => false
  | [lo], n => decide (lo ≤ n)
  | lo :: hi :: rest, n => if n < lo then false else if n < hi then true else inBounds rest n

/-- Nothing lies in the empty list of boundaries. -/
@[simp] theorem inBounds_nil (n : Nat) : inBounds [] n = false := rfl

end Retarget.Text
