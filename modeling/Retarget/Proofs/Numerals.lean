import Retarget.Proofs.Inclusion
import Retarget.Proofs.Language

/-!
# Decimal numerals

The decimal text of an integer is a literal: it is read back as the integer, unless it has more
digits than a literal may have (`Literal.parse_decimal`).  It is also a single word of a line, since
it has neither blanks nor the sign of a comment in it.
-/

namespace Retarget

namespace Radix

/-- Every number has digits, also zero. -/
theorem digits_ne_nil (base n : Nat) : digits base n ≠ [] := by
  rw [digits]
  split
  · exact List.cons_ne_nil _ _
  · exact List.append_ne_nil_of_right_ne_nil _ (List.cons_ne_nil _ _)

/-- A number below a power of the base has at most so many digits. -/
theorem length_digits_le {base n k : Nat} (hk : 1 ≤ k) (h : n < base ^ k) :
    (digits base n).length ≤ k := by
  induction k generalizing n with
  | zero => omega
  | succ k ih =>
    rw [digits]
    split
    · exact hk
    · rename_i hbase
      have hpos : 1 ≤ k := by
        rcases Nat.eq_zero_or_pos k with rfl | hpos
        · rw [Nat.zero_add, Nat.pow_one] at h
          omega
        · exact hpos
      have hdiv : n / base < base ^ k := by
        rw [Nat.div_lt_iff_lt_mul (by omega), ← Nat.pow_succ]
        exact h
      rw [List.length_append, List.length_singleton]
      exact Nat.succ_le_succ (ih hpos hdiv)

theorem isDecimalDigit_digitChar {d : Nat} (h : d < 10) : isDecimalDigit (digitChar d) = true := by
  revert d
  decide

/-- The decimal digits of a number are decimal digits. -/
theorem isDecimalDigit_of_mem {n : Nat} {c : Char} (h : c ∈ decimalDigits n) :
    isDecimalDigit c = true := by
  obtain ⟨d, hd, rfl⟩ := List.mem_map.1 h
  exact isDecimalDigit_digitChar (lt_of_mem_digits (by decide) hd)

theorem decimalDigits_ne_nil (n : Nat) : decimalDigits n ≠ [] :=
  fun h => digits_ne_nil 10 n (List.map_eq_nil_iff.1 h)

/-- A number that has a decimal text has few enough digits. -/
theorem length_decimalDigits {n : Int} (h : hasDecimal n = true) :
    (decimalDigits n.natAbs).length ≤ decimalLimit := by
  rw [hasDecimal, decide_eq_true_eq] at h
  unfold decimalBound at h
  rw [decimalDigits, List.length_map]
  generalize hk : decimalLimit = k at h ⊢
  exact length_digits_le (hk ▸ by decide) h

/-- The text of an integer is its digits, behind a minus sign if it is negative. -/
theorem toList_decimal (n : Int) :
    (decimal n).toList =
      (if n < 0 then ['-'] else []) ++ decimalDigits n.natAbs := by
  rw [decimal]
  split <;> simp

theorem decimal_ne_nil (n : Int) : (decimal n).toList ≠ [] := by
  rw [toList_decimal]
  exact List.append_ne_nil_of_right_ne_nil _ (decimalDigits_ne_nil _)

/-- The decimal text of an integer has digits in it and at most a minus sign. -/
theorem mem_decimal {n : Int} {c : Char} (h : c ∈ (decimal n).toList) :
    c = '-' ∨ isDecimalDigit c = true := by
  rw [toList_decimal, List.mem_append] at h
  rcases h with h | h
  · split at h
    · exact .inl (List.mem_singleton.1 h)
    · cases h
  · exact .inr (isDecimalDigit_of_mem h)

/-- There are no blanks in the decimal text of an integer. -/
theorem not_isBlank_of_mem_decimal {n : Int} {c : Char} (h : c ∈ (decimal n).toList) :
    Text.isBlank c = false := by
  rcases mem_decimal h with rfl | h
  · decide
  · exact Text.isBlank_of_isWord (Format.isWord_of_isDecimalDigit h)

/-- The decimal text of an integer starts no comment. -/
theorem semicolon_not_mem_decimal (n : Int) : ';' ∉ (decimal n).toList := by
  intro h
  rcases mem_decimal h with h | h
  · cases h
  · cases h

end Radix

namespace Literal

open Radix

/-- Decimal digits are read back, if there are not too many of them. -/
theorem readDecimal_decimalDigits {n : Int} (h : hasDecimal n = true) (whole : List Char) :
    readDecimal whole (decimalDigits n.natAbs) = .ok n.natAbs := by
  have hempty : (decimalDigits n.natAbs).isEmpty = false :=
    List.isEmpty_eq_false_iff.2 (decimalDigits_ne_nil _)
  have hall : (decimalDigits n.natAbs).all isDecimalDigit = true :=
    List.all_eq_true.2 fun c hc => isDecimalDigit_of_mem hc
  rw [readDecimal, hempty, hall, if_neg (by decide),
    if_neg (Nat.not_lt.2 (length_decimalDigits h)), read_decimalDigits]

/-- **The decimal text of an integer is read back as the integer.** -/
theorem parse_decimal {n : Int} (h : hasDecimal n = true) : parse (decimal n) = .ok n := by
  have htrim : Text.trim (decimal n).toList = (decimal n).toList :=
    Text.trim_of_ends (fun c hc => not_isBlank_of_mem_decimal (List.mem_of_mem_head? hc))
      fun c hc => not_isBlank_of_mem_decimal (List.mem_of_getLast? hc)
  have hdigit : ∀ c ∈ decimalDigits n.natAbs, isDecimalDigit c = true :=
    fun c hc => isDecimalDigit_of_mem hc
  rw [parse, htrim, toList_decimal]
  by_cases hneg : n < 0
  · rw [if_pos hneg, List.singleton_append, readTrimmed, readDecimal_decimalDigits h]
    show Except.ok (-(n.natAbs : Int)) = _
    rw [Int.ofNat_natAbs_of_nonpos (Int.le_of_lt hneg), Int.neg_neg]
  · -- The first character is a digit, so none of the signs is met.
    rw [if_neg hneg, List.nil_append, readTrimmed, readDecimal_decimalDigits h]
    · show Except.ok (n.natAbs : Int) = _
      rw [Int.natAbs_of_nonneg (Int.not_lt.1 hneg)]
    · exact decimalDigits_ne_nil _
    · intro digits hdigits
      have := hdigit '$' (hdigits ▸ List.mem_cons_self)
      cases this
    · intro digits hdigits
      have := hdigit '-' (hdigits ▸ List.mem_cons_self)
      cases this

end Literal

end Retarget
