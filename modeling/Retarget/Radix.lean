/-!
# Positional numerals

Digits of a number in a base, the value of a digit list, and the texts of integers.  The two
directions are inverse: `value_digits`.

Decimal text is limited: a number of more than `decimalLimit` digits is neither read nor written.
-/

namespace Retarget.Radix

/-! ## Digits and values -/

/-- The digits of `n`, most significant first; a base below two leaves `n` as one digit. -/
def digits (base n : Nat) : List Nat :=
  if n < base ∨ base < 2 then [n] else digits base (n / base) ++ [n % base]
termination_by n
decreasing_by exact Nat.div_lt_self (by omega) (by omega)

/-- The number that a list of digits stands for. -/
def value (base : Nat) (ds : List Nat) : Nat :=
  ds.foldl (fun acc d => acc * base + d) 0

/-- Appending a digit multiplies the value by the base. -/
theorem value_concat (base : Nat) (ds : List Nat) (d : Nat) :
    value base (ds ++ [d]) = value base ds * base + d := by
  simp [value]

/-- Reading the digits of a number gives it back. -/
theorem value_digits (base n : Nat) : value base (digits base n) = n := by
  induction n using Nat.strongRecOn with
  | _ n ih =>
    rw [digits]
    split
    · simp [value]
    · rename_i h
      rw [value_concat, ih (n / base) (Nat.div_lt_self (by omega) (by omega)), Nat.mul_comm]
      exact Nat.div_add_mod n base

/-- Every digit is below the base. -/
theorem lt_of_mem_digits {base n d : Nat} (hb : 2 ≤ base) (h : d ∈ digits base n) : d < base := by
  induction n using Nat.strongRecOn with
  | _ n ih =>
    rw [digits] at h
    split at h
    · simp only [List.mem_singleton] at h; omega
    · rename_i hn
      rcases List.mem_append.mp h with h | h
      · exact ih _ (Nat.div_lt_self (by omega) (by omega)) h
      · simp only [List.mem_singleton] at h
        rw [h]; exact Nat.mod_lt _ (by omega)

/-! ## Characters -/

/-- The character of a digit below sixteen, letters in upper case. -/
def digitChar (d : Nat) : Char :=
  if d < 10 then Char.ofNat (48 + d) else Char.ofNat (55 + d)

/-- The value of a hexadecimal digit of either case. -/
def digitValue? (c : Char) : Option Nat :=
  let n := c.toNat
  if 48 ≤ n ∧ n ≤ 57 then some (n - 48)
  else if 65 ≤ n ∧ n ≤ 70 then some (n - 55)
  else if 97 ≤ n ∧ n ≤ 102 then some (n - 87)
  else none

/-- An ASCII decimal digit. -/
def isDecimalDigit (c : Char) : Bool :=
  decide (48 ≤ c.toNat ∧ c.toNat ≤ 57)

/-- An ASCII hexadecimal digit of either case. -/
def isHexDigit (c : Char) : Bool :=
  (digitValue? c).isSome

/-- The value of a text of digits; characters that are no digits count as zero. -/
def read (base : Nat) (s : List Char) : Nat :=
  value base (s.map fun c => (digitValue? c).getD 0)

/-- A digit is read back from its character. -/
theorem digitValue?_digitChar {d : Nat} (h : d < 16) : digitValue? (digitChar d) = some d := by
  revert d; decide

/-! ## Texts of integers -/

/-- The digits of a natural number in base ten. -/
def decimalDigits (n : Nat) : List Char :=
  (digits 10 n).map digitChar

/-- The decimal text of an integer. -/
def decimal (n : Int) : String :=
  if n < 0 then String.ofList ('-' :: decimalDigits n.natAbs)
  else String.ofList (decimalDigits n.natAbs)

/-- The number of digits that a decimal text may have. -/
def decimalLimit : Nat := 4300

/-- The first natural number whose decimal text is too long. -/
def decimalBound : Nat := Nat.pow 10 decimalLimit

/-- Whether an integer has a decimal text, the sign not counted. -/
def hasDecimal (n : Int) : Bool :=
  decide (n.natAbs < decimalBound)

/-- A text of digits is read back as the number it was written for. -/
theorem read_map_digitChar {base : Nat} {ds : List Nat} (h : ∀ d ∈ ds, d < 16) :
    read base (ds.map digitChar) = value base ds := by
  unfold read
  congr 1
  induction ds with
  | nil => rfl
  | cons d rest ih =>
    simp [digitValue?_digitChar (h d List.mem_cons_self),
      ih fun e he => h e (List.mem_cons_of_mem d he)]

/-- The decimal digits of a number are read back as the number. -/
theorem read_decimalDigits (n : Nat) : read 10 (decimalDigits n) = n := by
  rw [decimalDigits, read_map_digitChar fun d hd => Nat.lt_trans (lt_of_mem_digits (by omega) hd)
    (by omega), value_digits]

end Retarget.Radix
