import Retarget.Proofs.Numerals
import Retarget.Table

/-!
# Texts of reals

A cell that spells a natural number, perhaps with an exponent, can be shown as a real of six digits.
Such a text has only few characters in it (`Decimal.isRealChar_briefText`), and it does not start
with a zero and a digit (`Decimal.briefText_start`).

So a number that is not whole is never shown as it was spelled (`Table.realCell_ne`).  Either it has
an exponent, whose mark is a capital letter; or it has too many digits for a whole number, and then
it starts with zeros, or else it would be infinite.
-/

namespace Retarget

/-! ## The digits of a number -/

namespace Radix

variable {base n : Nat}

/-- A number needs all of its digits, and has room in them. -/
theorem length_digits_bounds (hbase : 2 ≤ base) (hn : n ≠ 0) :
    base ^ ((digits base n).length - 1) ≤ n ∧ n < base ^ (digits base n).length := by
  induction n using Nat.strongRecOn with
  | _ n ih =>
    rw [digits]
    split
    · rw [List.length_singleton, Nat.sub_self, Nat.pow_zero, Nat.pow_one]
      omega
    · rename_i h
      have hquotient : n / base ≠ 0 := Nat.div_ne_zero_iff.2 ⟨by omega, by omega⟩
      obtain ⟨hlow, hhigh⟩ := ih (n / base) (Nat.div_lt_self (by omega) (by omega)) hquotient
      have hpos : 0 < (digits base (n / base)).length :=
        List.length_pos_iff.2 (digits_ne_nil base _)
      rw [List.length_append, List.length_singleton, Nat.add_sub_cancel]
      constructor
      · calc base ^ (digits base (n / base)).length
            = base ^ ((digits base (n / base)).length - 1) * base := by
              rw [← Nat.pow_succ, Nat.succ_eq_add_one, Nat.sub_add_cancel hpos]
          _ ≤ n / base * base := Nat.mul_le_mul_right base hlow
          _ ≤ n := Nat.div_mul_le_self n base
      · rw [Nat.pow_succ]
        exact (Nat.div_lt_iff_lt_mul (by omega)).1 hhigh

/-- The first digit of a number other than zero is not zero. -/
theorem head_digits_ne_zero (hbase : 2 ≤ base) (hn : n ≠ 0) : (digits base n).head? ≠ some 0 := by
  induction n using Nat.strongRecOn with
  | _ n ih =>
    rw [digits]
    split
    · simpa using hn
    · rename_i h
      have hquotient : n / base ≠ 0 := Nat.div_ne_zero_iff.2 ⟨by omega, by omega⟩
      rw [List.head?_append_of_ne_nil _ (digits_ne_nil base _)]
      exact ih (n / base) (Nat.div_lt_self (by omega) (by omega)) hquotient

theorem value_cons (base d : Nat) (ds : List Nat) :
    value base (d :: ds) = d * base ^ ds.length + value base ds := by
  induction ds using List.reverseRecOn with
  | nil => simp [value]
  | append_singleton ds last ih =>
    rw [← List.cons_append, value_concat, value_concat, ih, List.length_append,
      List.length_singleton, Nat.pow_succ]
    ring

/-- A text of digits that does not start with a zero. -/
theorem pow_length_le_read {c : Char} (hc : isDecimalDigit c = true) (hzero : c ≠ '0')
    (rest : List Char) : 10 ^ rest.length ≤ read 10 (c :: rest) := by
  have hrange : 48 ≤ c.toNat ∧ c.toNat ≤ 57 := of_decide_eq_true hc
  have hne : c.toNat ≠ 48 := fun h => hzero (Char.toNat_inj.1 h)
  have hvalue : digitValue? c = some (c.toNat - 48) := if_pos hrange
  rw [read, List.map_cons, value_cons, hvalue, Option.getD_some, List.length_map]
  have hone : 1 * 10 ^ rest.length ≤ (c.toNat - 48) * 10 ^ rest.length :=
    Nat.mul_le_mul_right _ (by omega)
  omega

end Radix

/-! ## Texts of reals -/

namespace Decimal

/-- A character that may stand in the text of a real. -/
def isRealChar (c : Char) : Bool :=
  Radix.isDecimalDigit c || ['.', 'e', '+', '-', 'i', 'n', 'f', 'a'].contains c

theorem isRealChar_digitChar {d : Nat} (h : d < 10) : isRealChar (Radix.digitChar d) = true := by
  rw [isRealChar, Radix.isDecimalDigit_digitChar h, Bool.true_or]

theorem mem_dropTrailingZeros {ds : List Nat} {d : Nat} (h : d ∈ dropTrailingZeros ds) :
    d ∈ ds ∨ d = 0 := by
  simp only [dropTrailingZeros] at h
  split at h
  · exact .inr (List.mem_singleton.1 h)
  · have hmem : d ∈ ds.reverse.dropWhile (· == 0) := List.mem_reverse.1 h
    exact .inl (List.mem_reverse.1 ((List.dropWhile_sublist _).mem hmem))

/-- The first digit stays, if it is not zero. -/
theorem dropTrailingZeros_cons {d : Nat} (h : d ≠ 0) (rest : List Nat) :
    ∃ more, dropTrailingZeros (d :: rest) = d :: more := by
  have hkept : ¬ ((d :: rest).reverse.dropWhile (· == 0)).reverse = [] := by
    intro hnil
    have hzeros := List.rdropWhile_eq_nil_iff.1 hnil
    exact h (beq_iff_eq.1 (hzeros d List.mem_cons_self))
  have hprefix : ((d :: rest).reverse.dropWhile (· == 0)).reverse <+: d :: rest :=
    List.rdropWhile_prefix (· == 0) (d :: rest)
  obtain ⟨first, more, hmore⟩ := List.exists_cons_of_ne_nil hkept
  rw [hmore, List.cons_prefix_cons] at hprefix
  refine ⟨more, ?_⟩
  simp only [dropTrailingZeros]
  rw [hmore, hprefix.1, List.isEmpty_cons, if_neg Bool.false_ne_true]

theorem isRealChar_exponentText (e : Int) : ∀ c ∈ exponentText e, isRealChar c = true := by
  have hdigits : ∀ c ∈ Radix.decimalDigits e.natAbs, isRealChar c = true := by
    intro c hc
    rw [isRealChar, Radix.isDecimalDigit_of_mem hc, Bool.true_or]
  intro c hc
  rw [exponentText, List.mem_append] at hc
  rcases hc with hc | hc
  · simp only [List.mem_cons, List.not_mem_nil, or_false] at hc
    rcases hc with rfl | rfl
    · decide
    · split <;> decide
  · split at hc
    · rcases List.mem_cons.1 hc with rfl | hc
      · decide
      · exact hdigits c hc
    · exact hdigits c hc

theorem isRealChar_significant (d : Scaled) : ∀ c ∈ significant d, isRealChar c = true := by
  refine List.forall_mem_map.2 fun n hn => isRealChar_digitChar ?_
  rcases mem_dropTrailingZeros hn with hn | rfl
  · exact Radix.lt_of_mem_digits (by decide) hn
  · decide

theorem isRealChar_withPoint {ds : List Char} (h : ∀ c ∈ ds, isRealChar c = true) :
    ∀ c ∈ withPoint ds, isRealChar c = true := by
  rcases ds with _ | ⟨c, _ | ⟨d, more⟩⟩
  · exact h
  · exact h
  · rw [List.forall_mem_cons] at h
    exact List.forall_mem_cons.2 ⟨h.1, List.forall_mem_cons.2 ⟨by decide, h.2⟩⟩

theorem isRealChar_layout (style : Style) (d : Scaled) :
    ∀ c ∈ style.layout d, isRealChar c = true := by
  have hds := isRealChar_significant d
  have hzeros : ∀ n, ∀ c ∈ List.replicate n '0', isRealChar c = true := by
    intro n c hc
    rw [List.eq_of_mem_replicate hc]
    decide
  have hpoint : ∀ c ∈ ['.', '0'], isRealChar c = true := List.all_eq_true.1 (by decide)
  have hbelow : ∀ c ∈ ['0', '.'], isRealChar c = true := List.all_eq_true.1 (by decide)
  simp only [Style.layout]
  split
  · rw [List.forall_mem_append]
    exact ⟨isRealChar_withPoint hds, isRealChar_exponentText _⟩
  split
  · rw [List.forall_mem_append, List.forall_mem_append]
    exact ⟨⟨hbelow, hzeros _⟩, hds⟩
  -- The digits in front of the point, with zeros behind them, and what follows.
  have hfront : ∀ n m, ∀ c ∈ (significant d).take n ++ List.replicate m '0',
      isRealChar c = true := by
    intro n m
    rw [List.forall_mem_append]
    exact ⟨fun c hc => hds c (List.mem_of_mem_take hc), hzeros m⟩
  split
  · split
    · rw [List.forall_mem_append]
      exact ⟨hfront _ _, hpoint⟩
    · exact hfront _ _
  · rw [List.forall_mem_append, List.forall_mem_cons]
    exact ⟨hfront _ _, by decide, fun c hc => hds c (List.mem_of_mem_drop hc)⟩

theorem isRealChar_briefText (x : Parts) : ∀ c ∈ (briefText x).toList, isRealChar c = true := by
  cases x with
  | notANumber => exact List.all_eq_true.1 (by decide)
  | infinite negative => cases negative <;> exact List.all_eq_true.1 (by decide)
  | finite negative b =>
    rw [briefText, Style.write, String.toList_ofList, List.forall_mem_append]
    refine ⟨?_, isRealChar_layout _ _⟩
    cases negative <;> exact List.all_eq_true.1 (by decide)

/-! ## The start of the text of a real -/

theorem digitChar_ne_zero {n : Nat} (hn : n ≠ 0) (hlt : n < 10) : Radix.digitChar n ≠ '0' := by
  intro hzero
  have hvalue := Radix.digitValue?_digitChar (hlt.trans (by decide : 10 < 16))
  rw [hzero] at hvalue
  exact hn (Option.some.inj hvalue).symm

/-- The first significant digit of a decimal other than zero. -/
theorem significant_eq_cons {d : Scaled} (h : d.digits ≠ 0) :
    ∃ c more, significant d = c :: more ∧ c ≠ '0' := by
  obtain ⟨first, rest, hdigits⟩ := List.exists_cons_of_ne_nil (Radix.digits_ne_nil 10 d.digits)
  have hfirst : first ≠ 0 := by
    have hhead := Radix.head_digits_ne_zero (by decide : 2 ≤ 10) h
    rw [hdigits, List.head?_cons] at hhead
    rintro rfl
    exact hhead rfl
  have hlt : first < 10 :=
    Radix.lt_of_mem_digits (by decide) (hdigits ▸ List.mem_cons_self)
  obtain ⟨more, hmore⟩ := dropTrailingZeros_cons hfirst rest
  refine ⟨Radix.digitChar first, more.map Radix.digitChar, ?_, digitChar_ne_zero hfirst hlt⟩
  rw [significant, hdigits, hmore, List.map_cons]

/-- A decimal starts with a digit other than zero, or with a zero and a point. -/
theorem layout_start (style : Style) {d : Scaled} (h : d.digits ≠ 0) :
    ∃ c rest, style.layout d = c :: rest ∧ (c ≠ '0' ∨ rest.head? = some '.') := by
  obtain ⟨c, more, hds, hc⟩ := significant_eq_cons h
  simp only [Style.layout, hds]
  split
  · rcases more with _ | ⟨next, more⟩
    · exact ⟨c, _, rfl, .inl hc⟩
    · exact ⟨c, _, rfl, .inl hc⟩
  split
  · exact ⟨'0', _, rfl, .inr rfl⟩
  · simp only [List.take_succ_cons, List.cons_append]
    split
    · split
      · exact ⟨c, _, rfl, .inl hc⟩
      · exact ⟨c, _, rfl, .inl hc⟩
    · exact ⟨c, _, rfl, .inl hc⟩

/-- A natural number other than zero is not below the power of ten of its last kept digit. -/
theorem floorAt_ne_zero {b : Binary} (hmantissa : b.mantissa ≠ 0) (hexponent : 0 ≤ b.exponent)
    {count : Nat} (hcount : 1 ≤ count) : b.toRatio.floorAt (b.magnitude - count) ≠ 0 := by
  have hratio : b.toRatio = ⟨b.mantissa * Nat.pow 2 b.exponent.toNat, 1⟩ := if_pos hexponent
  have hpow : Nat.pow 2 b.exponent.toNat ≠ 0 := (Nat.two_pow_pos _).ne_zero
  generalize hn : b.mantissa * Nat.pow 2 b.exponent.toNat = n at hratio
  have hne : n ≠ 0 := hn ▸ Nat.mul_ne_zero hmantissa hpow
  have hmagnitude : b.magnitude = ((Radix.digits 10 n).length : Int) := by
    simp only [Binary.magnitude, hratio]
    rw [if_neg (by omega), Nat.div_one]
    rfl
  have hten : ∀ k, 0 < Nat.pow 10 k := fun k => Nat.pow_pos (by decide)
  rw [hratio, hmagnitude, Ratio.floorAt]
  split
  · have hlength : 10 ^ ((Radix.digits 10 n).length - 1) ≤ n :=
      (Radix.length_digits_bounds (by decide) hne).1
    have hscale : (((Radix.digits 10 n).length : Int) - count).toNat ≤
        (Radix.digits 10 n).length - 1 := by omega
    rw [Nat.one_mul]
    refine Nat.div_ne_zero_iff.2 ⟨(hten _).ne_zero, ?_⟩
    exact (Nat.pow_le_pow_right (by decide) hscale).trans hlength
  · rw [Nat.div_one]
    exact Nat.mul_ne_zero hne (hten _).ne_zero

/-- Rounding a natural number other than zero leaves digits. -/
theorem digits_rounded_ne_zero {b : Binary} (hmantissa : b.mantissa ≠ 0)
    (hexponent : 0 ≤ b.exponent)
    {count : Nat} (hcount : 1 ≤ count) : (b.rounded count).digits ≠ 0 := by
  have hdown := floorAt_ne_zero hmantissa hexponent hcount
  have hten : Nat.pow 10 (count - 1) ≠ 0 := (Nat.pow_pos (by decide : 0 < 10)).ne_zero
  simp only [Binary.rounded]
  split
  · split
    · exact hten
    · exact Nat.succ_ne_zero _
  · split
    · exact hten
    · exact hdown

/-- The text of a natural number as a real does not start with a zero and a digit. -/
theorem briefText_start {negative : Bool} {b : Binary} (hexponent : 0 ≤ b.exponent) {c : Char}
    {rest : List Char} (h : (briefText (.finite negative b)).toList =
      (if negative then ['-'] else []) ++ '0' :: c :: rest) : Radix.isDecimalDigit c = false := by
  rw [briefText, Style.write, String.toList_ofList, List.append_cancel_left_eq] at h
  by_cases hmantissa : b.mantissa = 0
  · have hzero : Style.brief.layout ⟨0, 0⟩ = ['0'] := by decide +kernel
    rw [if_pos hmantissa, hzero] at h
    cases h
  · rw [if_neg hmantissa] at h
    obtain ⟨first, more, hlayout, hstart⟩ :=
      layout_start Style.brief (digits_rounded_ne_zero hmantissa hexponent (by decide : 1 ≤ 6))
    rw [hlayout, List.cons.injEq] at h
    obtain ⟨rfl, rfl⟩ := h
    rcases hstart with hstart | hstart
    · exact absurd rfl hstart
    · cases hstart
      decide

/-- A number that is not infinite has few digits, and is a natural number with a sign. -/
theorem nearest_eq_finite {negative sign : Bool} {n power : Nat} {b : Binary}
    (h : nearest negative n power = .finite sign b) :
    sign = negative ∧ 0 ≤ b.exponent ∧ (n = 0 ∨ (Radix.digits 10 n).length + power ≤ 310) := by
  rw [nearest] at h
  split at h
  · rename_i hn
    cases h
    exact ⟨rfl, Int.le_refl 0, .inl hn⟩
  · split at h
    · cases h
    · rename_i hlength
      simp only [ofNat] at h
      split at h
      · split at h
        · cases h
        · cases h
          exact ⟨rfl, Int.natCast_nonneg _, .inr (Nat.not_lt.1 hlength)⟩
      · split at h
        · cases h
        · cases h
          exact ⟨rfl, Int.natCast_nonneg _, .inr (Nat.not_lt.1 hlength)⟩

end Decimal

namespace Table

theorem signed_of_ne {c : Char} (h : c ≠ '-') (rest : List Char) :
    signed (c :: rest) = (false, c :: rest) := by
  rw [signed]
  rintro body ⟨rfl, -⟩
  exact h rfl

theorem signed_eq (cell : List Char) :
    cell = (if (signed cell).1 then ['-'] else []) ++ (signed cell).2 := by
  rcases cell with _ | ⟨c, rest⟩
  · rfl
  · by_cases hc : c = '-'
    · subst hc
      rfl
    · rw [signed_of_ne hc]
      rfl

/-- What a text that spells a number is made of: digits, or a mark for an exponent among them. -/
theorem scientific?_eq_some {body : List Char} {n power : Nat}
    (h : scientific? body = some (n, power)) :
    ((∀ c ∈ body, Radix.isDecimalDigit c = true) ∧ body ≠ [] ∧ n = Radix.read 10 body ∧
      power = 0) ∨ 'E' ∈ body ∨ 'e' ∈ body := by
  simp only [scientific?] at h
  split at h
  · cases h
  rename_i hwhole
  cases hrest : body.dropWhile Radix.isDecimalDigit with
  | nil =>
    have hall : ∀ c ∈ body, Radix.isDecimalDigit c = true := List.dropWhile_eq_nil_iff.1 hrest
    have hbody : body.takeWhile Radix.isDecimalDigit = body := List.takeWhile_eq_self_iff.2 hall
    rw [hbody] at hwhole
    simp only [hrest, hbody] at h
    cases h
    exact .inl ⟨hall, fun hnil => hwhole (hnil ▸ rfl), rfl, rfl⟩
  | cons mark digits =>
    have hmark : mark ∈ body :=
      (List.dropWhile_sublist _).mem (hrest ▸ List.mem_cons_self)
    simp only [hrest] at h
    split at h
    · rename_i hcond
      simp only [Bool.and_eq_true, Bool.or_eq_true, beq_iff_eq] at hcond
      rcases hcond.1.1 with rfl | rfl
      · exact .inr (.inl hmark)
      · exact .inr (.inr hmark)
    · cases h

/-- Digits that are not a whole number are too many. -/
theorem length_of_not_isWhole {cell : List Char} (h : isWhole cell = false)
    (hall : ∀ c ∈ (signed cell).2, Radix.isDecimalDigit c = true) (hne : (signed cell).2 ≠ []) :
    Radix.decimalLimit < (signed cell).2.length := by
  by_contra hshort
  have hwhole : isWhole cell = true := by
    simp only [isWhole, Bool.and_eq_true, decide_eq_true_eq, List.all_eq_true, Bool.not_eq_true',
      List.isEmpty_eq_false_iff]
    exact ⟨⟨hne, hall⟩, Nat.not_lt.1 hshort⟩
  rw [h] at hwhole
  cases hwhole

/-- A number of more digits than a whole number may have, which is not infinite, starts with a
zero. -/
theorem head_of_long {body : List Char} {c : Char} {rest : List Char} (hbody : body = c :: rest)
    (hall : ∀ c ∈ body, Radix.isDecimalDigit c = true) (hlong : Radix.decimalLimit < body.length)
    (hsize : Radix.read 10 body = 0 ∨ (Radix.digits 10 (Radix.read 10 body)).length ≤ 310) :
    c = '0' := by
  by_contra hc
  subst hbody
  have hpow := Radix.pow_length_le_read (hall c List.mem_cons_self) hc rest
  have hpos : 0 < 10 ^ rest.length := Nat.pow_pos (by decide)
  have hne : Radix.read 10 (c :: rest) ≠ 0 := (Nat.lt_of_lt_of_le hpos hpow).ne'
  have hlt := (Radix.length_digits_bounds (by decide : 2 ≤ 10) hne).2
  have hlength : rest.length < (Radix.digits 10 (Radix.read 10 (c :: rest))).length :=
    (Nat.pow_lt_pow_iff_right (by decide : 1 < 10)).1 (Nat.lt_of_le_of_lt hpow hlt)
  rw [List.length_cons, Radix.decimalLimit] at hlong
  omega

theorem exists_of_isNumber {cell : List Char} (h : isNumber cell = true) :
    ∃ sign b, real? cell = some (.finite sign b) := by
  rw [isNumber] at h
  cases hreal : real? cell with
  | none =>
    rw [hreal] at h
    cases h
  | some x =>
    rw [hreal] at h
    cases x with
    | finite sign b => exact ⟨sign, b, rfl⟩
    | infinite sign => cases h
    | notANumber => cases h

/-- **A number that is not whole is not shown as it is.** -/
theorem realCell_ne {cell : List Char} (hmark : 'e' ∉ cell) (hwhole : isWhole cell = false)
    (hnumber : isNumber cell = true) : realCell cell ≠ cell := by
  obtain ⟨sign, b, hreal⟩ := exists_of_isNumber hnumber
  have hshown : realCell cell = (Decimal.briefText (.finite sign b)).toList := by
    rw [realCell, hreal]
  obtain ⟨⟨n, power⟩, hbody, hnearest⟩ := Option.map_eq_some_iff.1 hreal
  obtain ⟨rfl, hexponent, hsize⟩ := Decimal.nearest_eq_finite hnearest
  have hcell := signed_eq cell
  have hsub : ∀ c ∈ (signed cell).2, c ∈ cell := fun c hc =>
    hcell ▸ List.mem_append_right _ hc
  intro heq
  rw [hshown] at heq
  rcases scientific?_eq_some hbody with ⟨hall, hne, rfl, rfl⟩ | hcapital | hsmall
  · -- Digits only, more than a whole number may have: zeros in front, which no real keeps.
    have hlong := length_of_not_isWhole hwhole hall hne
    obtain ⟨c, rest, hcons⟩ := List.exists_cons_of_ne_nil hne
    have hrest : rest ≠ [] := by
      rintro rfl
      rw [hcons, List.length_singleton, Radix.decimalLimit] at hlong
      omega
    obtain ⟨next, more, rfl⟩ := List.exists_cons_of_ne_nil hrest
    have hzero : c = '0' := head_of_long hcons hall hlong hsize
    have hdigit : Radix.isDecimalDigit next = true := hall next (by simp [hcons])
    have hstart := Decimal.briefText_start hexponent
      (heq.trans (hcell.trans (by rw [hcons, hzero])))
    rw [hdigit] at hstart
    cases hstart
  · -- The mark of an exponent is written small.
    have hreal := Decimal.isRealChar_briefText _ 'E' (heq ▸ hsub 'E' hcapital)
    exact absurd hreal (by decide)
  · exact hmark (hsub 'e' hsmall)

end Table

end Retarget
