import Retarget.Proofs.Listing

/-!
# The grammar of literals

A literal is an optional minus sign and one to 4300 decimal digits, or a dollar sign and any number
of hexadecimal digits of either case, with any blanks around it.  `Literal.Spells` says so without
the reader, and gives a literal the value that its digits have by their places.  The reader accepts
exactly these texts and gives exactly these values (`Literal.parse_eq_ok_iff`).

What the two writers of numbers write is therefore read back: the decimal text of every integer that
has no more digits than a literal may have, and every hexadecimal field behind a dollar sign.  A
field has as many digits as it is asked for, or as many as the number has if these are more, and it
exists if there is room for them.
-/

namespace Retarget

/-! ## Blanks around a text -/

namespace Text

variable {front s back : List Char}

/-- Blanks in front are trimmed. -/
theorem trimStart_append (hfront : ∀ c ∈ front, isBlank c = true) :
    trimStart (front ++ s) = trimStart s := by
  rw [trimStart, trimStart, List.dropWhile_append_of_pos hfront]

/-- Blanks behind are trimmed. -/
theorem trimEnd_append (hback : ∀ c ∈ back, isBlank c = true) :
    trimEnd (s ++ back) = trimEnd s := by
  rw [trimEnd, trimEnd, List.reverse_append, List.dropWhile_append_of_pos]
  exact fun c hc => hback c (List.mem_reverse.1 hc)

/-- A text that neither starts nor ends with a blank is what is left of it between blanks. -/
theorem trim_between (hfront : ∀ c ∈ front, isBlank c = true)
    (hback : ∀ c ∈ back, isBlank c = true) (hhead : ∀ c ∈ s.head?, isBlank c = false)
    (hlast : ∀ c ∈ s.getLast?, isBlank c = false) : trim (front ++ s ++ back) = s := by
  rcases eq_or_ne s [] with rfl | hne
  · refine trim_of_forall_isBlank fun c hc => ?_
    rw [List.append_nil, List.mem_append] at hc
    exact hc.elim (hfront c) (hback c)
  · rw [trim, List.append_assoc, trimStart_append hfront, trimStart_of_head, trimEnd_append hback,
      trimEnd_of_getLast hlast]
    rwa [List.head?_append_of_ne_nil _ hne]

/-- A text is what trimming leaves of it, between blanks. -/
theorem exists_trim (s : List Char) : ∃ front back, s = front ++ trim s ++ back ∧
    (∀ c ∈ front, isBlank c = true) ∧ ∀ c ∈ back, isBlank c = true := by
  refine ⟨s.takeWhile isBlank, ((trimStart s).reverse.takeWhile isBlank).reverse, ?_,
    fun c hc => List.mem_takeWhile_imp hc, fun c hc => ?_⟩
  · have hback : trim s ++ ((trimStart s).reverse.takeWhile isBlank).reverse = trimStart s := by
      rw [trim, trimEnd, ← List.reverse_append, List.takeWhile_append_dropWhile,
        List.reverse_reverse]
    rw [List.append_assoc, hback, trimStart, List.takeWhile_append_dropWhile]
  · exact List.mem_takeWhile_imp (List.mem_reverse.1 hc)

end Text

/-! ## Digits and their places -/

namespace Radix

/-- The digits of the bases up to sixteen, each at the place of its value. -/
def numerals : List Char :=
  ['0', '1', '2', '3', '4', '5', '6', '7', '8', '9', 'a', 'b', 'c', 'd', 'e', 'f']

/-- Whether a character is a digit of a base; a letter may be of either case. -/
def IsDigit (base : Nat) (c : Char) : Prop :=
  c.toLower ∈ numerals.take base

instance (base : Nat) : DecidablePred (IsDigit base) := fun c =>
  inferInstanceAs (Decidable (c.toLower ∈ numerals.take base))

/-- The number that digits stand for by their places, of which the first counts most. -/
def positional (base : Nat) (s : List Char) : Nat :=
  Nat.ofDigits base (s.map fun c => numerals.idxOf c.toLower).reverse

/-- Digits are ASCII. -/
theorem toNat_lt_of_isDigit {base : Nat} {c : Char} (h : IsDigit base c) : c.toNat < 128 := by
  have hmem : c.toLower ∈ numerals := List.mem_of_mem_take h
  have hlow : ∀ x ∈ numerals, decide (x.toNat < 128) = true := List.all_eq_true.1 (by decide)
  have hlower := of_decide_eq_true (hlow _ hmem)
  unfold Char.toLower at hlower
  split at hlower
  · rename_i hupper
    have : c.val ≤ 90 := hupper.2
    have hle : c.val.toNat ≤ 90 := this
    exact Nat.lt_of_le_of_lt hle (by decide)
  · exact hlower

/-- A decimal digit is one of the ten numerals. -/
theorem isDecimalDigit_iff {c : Char} : isDecimalDigit c = true ↔ IsDigit 10 c := by
  by_cases hc : c.toNat < 128
  · exact Text.ascii_induction (P := fun c => isDecimalDigit c = true ↔ IsDigit 10 c)
      (by decide +kernel) hc
  · exact iff_of_false (fun h => hc (Format.toNat_lt_of_isHexDigit
      (Format.isHexDigit_of_isDecimalDigit h))) fun h => hc (toNat_lt_of_isDigit h)

/-- A hexadecimal digit is one of the sixteen numerals, in either case. -/
theorem isHexDigit_iff {c : Char} : isHexDigit c = true ↔ IsDigit 16 c := by
  by_cases hc : c.toNat < 128
  · exact Text.ascii_induction (P := fun c => isHexDigit c = true ↔ IsDigit 16 c)
      (by decide +kernel) hc
  · exact iff_of_false (fun h => hc (Format.toNat_lt_of_isHexDigit h))
      fun h => hc (toNat_lt_of_isDigit h)

/-- The value of a digit is its place among the numerals. -/
theorem digitValue?_of_isDigit {c : Char} (h : IsDigit 16 c) :
    digitValue? c = some (numerals.idxOf c.toLower) := by
  revert h
  exact fun h => Text.ascii_induction
    (P := fun c => IsDigit 16 c → digitValue? c = some (numerals.idxOf c.toLower))
    (by decide +kernel) (toNat_lt_of_isDigit h) h

/-- The value of digits is that of the library, which has the lowest digit first. -/
theorem value_eq_ofDigits (base : Nat) (ds : List Nat) :
    value base ds = Nat.ofDigits base ds.reverse := by
  induction ds using List.reverseRecOn with
  | nil => rfl
  | append_singleton ds d ih =>
    rw [value_concat, ih, List.reverse_append, List.reverse_singleton, List.singleton_append,
      Nat.ofDigits_cons, Nat.add_comm, Nat.mul_comm]

/-- Digits are read as the number that they stand for by their places. -/
theorem read_eq_positional (base : Nat) {s : List Char} (h : ∀ c ∈ s, IsDigit 16 c) :
    read base s = positional base s := by
  rw [read, value_eq_ofDigits, positional]
  congr 2
  refine List.map_congr_left fun c hc => ?_
  rw [digitValue?_of_isDigit (h c hc), Option.getD_some]

end Radix

/-! ## The grammar -/

theorem map_eq_ok_iff {ε α β : Type} {f : α → β} {result : Except ε α} {v : β} :
    result.map f = .ok v ↔ ∃ u, result = .ok u ∧ f u = v := by
  cases result with
  | error e => exact iff_of_false (by rintro ⟨⟩) (by rintro ⟨u, ⟨⟩, -⟩)
  | ok u => simp [Except.map]

namespace Literal

open Radix

/-- The literals without blanks around them, and their values. -/
inductive Spells : List Char → Int → Prop where
  | decimal {digits : List Char} (hne : digits ≠ []) (hlength : digits.length ≤ decimalLimit)
    (hdigits : ∀ c ∈ digits, IsDigit 10 c) : Spells digits (positional 10 digits)
  | negative {digits : List Char} (hne : digits ≠ []) (hlength : digits.length ≤ decimalLimit)
    (hdigits : ∀ c ∈ digits, IsDigit 10 c) : Spells ('-' :: digits) (-(positional 10 digits))
  | hexadecimal {digits : List Char} (hne : digits ≠ [])
    (hdigits : ∀ c ∈ digits, IsDigit 16 c) : Spells ('$' :: digits) (positional 16 digits)

/-- Whether a text is a literal of this value, with any blanks around it. -/
def Spelled (text : String) (value : Int) : Prop :=
  ∃ front s back, text.toList = front ++ s ++ back ∧ (∀ c ∈ front, Text.isBlank c = true) ∧
    (∀ c ∈ back, Text.isBlank c = true) ∧ Spells s value

variable {whole digits s : List Char} {value : Int} {n : Nat}

theorem isDigit_of_decimal {c : Char} (h : IsDigit 10 c) : IsDigit 16 c :=
  isHexDigit_iff.1 (Format.isHexDigit_of_isDecimalDigit (isDecimalDigit_iff.2 h))

/-- What both readers of digits check first. -/
theorem digits_refused_iff {isDigit : Char → Bool} :
    (digits.isEmpty || !digits.all isDigit) = true ↔
      ¬ (digits ≠ [] ∧ ∀ c ∈ digits, isDigit c = true) := by
  rw [Bool.or_eq_true, Bool.not_eq_true', List.isEmpty_iff, ← Bool.not_eq_true, List.all_eq_true,
    not_and_or, not_ne_iff]

/-- Decimal digits are read at their value, if there are some and not too many. -/
theorem readDecimal_eq_ok_iff : readDecimal whole digits = .ok n ↔ digits ≠ [] ∧
    digits.length ≤ decimalLimit ∧ (∀ c ∈ digits, IsDigit 10 c) ∧ positional 10 digits = n := by
  rw [readDecimal]
  simp only [digits_refused_iff, isDecimalDigit_iff]
  split
  · rename_i hrefused
    exact iff_of_false (by rintro ⟨⟩) fun h => hrefused ⟨h.1, h.2.2.1⟩
  · rename_i haccepted
    obtain ⟨hne, hdigits⟩ := not_not.1 haccepted
    split
    · rename_i hlong
      exact iff_of_false (by rintro ⟨⟩) fun h => Nat.not_lt.2 h.2.1 hlong
    · rename_i hshort
      rw [read_eq_positional 10 fun c hc => isDigit_of_decimal (hdigits c hc), Except.ok.injEq]
      exact ⟨fun h => ⟨hne, Nat.not_lt.1 hshort, hdigits, h⟩, fun h => h.2.2.2⟩

/-- Hexadecimal digits are read at their value, if there are some. -/
theorem readHex_eq_ok_iff : readHex whole digits = .ok n ↔
    digits ≠ [] ∧ (∀ c ∈ digits, IsDigit 16 c) ∧ positional 16 digits = n := by
  rw [readHex]
  simp only [digits_refused_iff, isHexDigit_iff]
  split
  · rename_i hrefused
    exact iff_of_false (by rintro ⟨⟩) fun h => hrefused ⟨h.1, h.2.1⟩
  · rename_i haccepted
    obtain ⟨hne, hdigits⟩ := not_not.1 haccepted
    rw [read_eq_positional 16 hdigits, Except.ok.injEq]
    exact ⟨fun h => ⟨hne, hdigits, h⟩, fun h => h.2.2⟩

/-- The reader gives the value of a literal to it, and to nothing else. -/
theorem readTrimmed_eq_ok_iff : readTrimmed s = .ok value ↔ Spells s value := by
  constructor
  · intro h
    unfold readTrimmed at h
    split at h
    · cases h
    · obtain ⟨n, hread, rfl⟩ := map_eq_ok_iff.1 h
      obtain ⟨hne, hdigits, rfl⟩ := readHex_eq_ok_iff.1 hread
      exact .hexadecimal hne hdigits
    · obtain ⟨m, hcast, rfl⟩ := map_eq_ok_iff.1 h
      rw [bind_pure_comp] at hcast
      obtain ⟨n, hread, rfl⟩ := map_eq_ok_iff.1 hcast
      obtain ⟨hne, hlength, hdigits, rfl⟩ := readDecimal_eq_ok_iff.1 hread
      exact .negative hne hlength hdigits
    · obtain ⟨n, hread, rfl⟩ := map_eq_ok_iff.1 h
      obtain ⟨hne, hlength, hdigits, rfl⟩ := readDecimal_eq_ok_iff.1 hread
      exact .decimal hne hlength hdigits
  · rintro (⟨hne, hlength, hdigits⟩ | ⟨hne, hlength, hdigits⟩ | ⟨hne, hdigits⟩)
    · have hread : readDecimal s s = .ok (positional 10 s) :=
        readDecimal_eq_ok_iff.2 ⟨hne, hlength, hdigits, rfl⟩
      -- The first character is a digit, so neither sign is met.
      unfold readTrimmed
      split
      · exact absurd rfl hne
      · exact absurd (hdigits '$' List.mem_cons_self) (by decide)
      · exact absurd (hdigits '-' List.mem_cons_self) (by decide)
      · rw [hread]
        rfl
    · rw [readTrimmed, readDecimal_eq_ok_iff.2 ⟨hne, hlength, hdigits, rfl⟩]
      rfl
    · exact map_eq_ok_iff.2 ⟨_, readHex_eq_ok_iff.2 ⟨hne, hdigits, rfl⟩, rfl⟩

/-- There are no blanks in a spelled number. -/
theorem Spells.not_isBlank (h : Spells s value) : ∀ c ∈ s, Text.isBlank c = false := by
  have hdigit : ∀ {base : Nat} {c : Char}, IsDigit base c → base ≤ 16 → Text.isBlank c = false := by
    intro base c hc hbase
    have hhex : IsDigit 16 c := List.mem_of_mem_take (i := base) hc
    exact Text.isBlank_of_isWord (Format.isWord_of_isHexDigit (isHexDigit_iff.2 hhex))
  intro c hc
  cases h with
  | decimal hne hlength hdigits => exact hdigit (hdigits c hc) (by decide)
  | negative hne hlength hdigits =>
    rcases List.mem_cons.1 hc with rfl | hc
    · decide
    · exact hdigit (hdigits c hc) (by decide)
  | hexadecimal hne hdigits =>
    rcases List.mem_cons.1 hc with rfl | hc
    · decide
    · exact hdigit (hdigits c hc) (by decide)

/-- **The reader accepts exactly the texts of the grammar.** -/
theorem parse_eq_ok_iff {text : String} : parse text = .ok value ↔ Spelled text value := by
  rw [parse, readTrimmed_eq_ok_iff]
  constructor
  · intro h
    obtain ⟨front, back, htext, hfront, hback⟩ := Text.exists_trim text.toList
    exact ⟨front, _, back, htext, hfront, hback, h⟩
  · rintro ⟨front, s, back, htext, hfront, hback, h⟩
    rw [htext, Text.trim_between hfront hback
      (fun c hc => h.not_isBlank c (List.mem_of_mem_head? hc))
      fun c hc => h.not_isBlank c (List.mem_of_getLast? hc)]
    exact h

/-! ## Reading what was written -/

/-- A number has a decimal text if its digits are not too many. -/
theorem hasDecimal_iff {n : Int} : hasDecimal n = true ↔ n.natAbs < 10 ^ decimalLimit := by
  rw [hasDecimal, decide_eq_true_eq]
  unfold decimalBound
  generalize decimalLimit = k
  rfl

/-- The hexadecimal text of a number is its digits behind as many zeros as are missing. -/
theorem toList_hexText_natCast (n digits : Nat) : (hexText n digits).toList =
    (List.replicate (digits - (Radix.digits 16 n).length) 0 ++
      Radix.digits 16 n).map digitChar := by
  rw [hexText, if_neg (by omega), String.toList_ofList, List.length_map, Int.natAbs_natCast,
    List.map_append, List.map_replicate]
  rfl

/-- A field has its digits or those of its number, whichever are more. -/
theorem length_toList_hexText (n digits : Nat) :
    (hexText n digits).toList.length = max digits (Radix.digits 16 n).length := by
  rw [toList_hexText_natCast, List.length_map, List.length_append, List.length_replicate]
  omega

theorem exists_of_mem_hexText {n digits : Nat} {c : Char} (h : c ∈ (hexText n digits).toList) :
    ∃ d < 16, c = digitChar d := by
  rw [toList_hexText_natCast] at h
  obtain ⟨d, hd, rfl⟩ := List.mem_map.1 h
  refine ⟨d, ?_, rfl⟩
  rcases List.mem_append.1 hd with hd | hd
  · rw [List.eq_of_mem_replicate hd]
    decide
  · exact lt_of_mem_digits (by decide) hd

theorem isDigit_digitChar {d : Nat} (h : d < 16) : IsDigit 16 (digitChar d) := by
  revert d
  decide

/-- The hexadecimal text of a number has hexadecimal digits in it. -/
theorem isDigit_of_mem_hexText {n digits : Nat} {c : Char} (h : c ∈ (hexText n digits).toList) :
    IsDigit 16 c := by
  obtain ⟨d, hd, rfl⟩ := exists_of_mem_hexText h
  exact isDigit_digitChar hd

/-- The zeros in front of a number do not count. -/
theorem positional_hexText (n digits : Nat) : positional 16 (hexText n digits).toList = n := by
  have hdigits : ∀ d ∈ List.replicate (digits - (Radix.digits 16 n).length) 0 ++ Radix.digits 16 n,
      d < 16 := by
    intro d hd
    rcases List.mem_append.1 hd with hd | hd
    · rw [List.eq_of_mem_replicate hd]
      decide
    · exact lt_of_mem_digits (by decide) hd
  rw [← read_eq_positional 16 fun c => isDigit_of_mem_hexText, toList_hexText_natCast,
    read_map_digitChar hdigits, value_eq_ofDigits, List.reverse_append, List.reverse_replicate,
    Nat.ofDigits_append_replicate_zero, ← value_eq_ofDigits, value_digits]

/-- The hexadecimal text of a number is read back. -/
theorem parse_hexText (n digits : Nat) : parse ("$" ++ hexText n digits) = .ok (n : Int) := by
  have hspells := Spells.hexadecimal (hexText_ne_nil n digits) fun c => isDigit_of_mem_hexText
  rw [positional_hexText] at hspells
  refine parse_eq_ok_iff.2 ⟨[], _, [], ?_, List.forall_mem_nil _, List.forall_mem_nil _, hspells⟩
  rw [String.toList_append, List.nil_append, List.append_nil]
  rfl

/-- There is a field of a natural number if there is room for its digits. -/
theorem bounded_field_natCast [Machine] (n : Nat) {digits : Int} (h : 0 ≤ digits) :
    Bounded (Hex.field n digits)
      (max digits.toNat (Radix.digits 16 n).length ≤ Machine.text) := by
  obtain ⟨k, rfl⟩ := Int.eq_ofNat_of_zero_le h
  refine (Hex.bounded_field n k).congr ?_
  rw [Int.toNat_natCast, ← length_toList_hexText, String.length_toList]

/-- **The reader accepts exactly the grammar, and reads what the writers of numbers write.**  A
decimal text is written of a number of at most 4300 digits, and a hexadecimal one if there is room
for its digits. -/
theorem accepts_spelled [Machine] :
    (∀ text value, parse text = .ok value ↔ Spelled text value) ∧
    (∀ text, (∀ value, ¬ Spelled text value) → ∃ error, parse text = .error error) ∧
    (∀ text, isLiteral text = true ↔ ∃ value, Spelled text value) ∧
    (∀ n : Int, n.natAbs < 10 ^ decimalLimit → parse (decimal n) = .ok n) ∧
    ∀ (n : Nat) (digits : Int), 1 ≤ digits →
      Bounded (Hex.field n digits)
        (max digits.toNat (Radix.digits 16 n).length ≤ Machine.text) ∧
      ∀ field, Hex.field n digits = .ok field → parse ("$" ++ field) = .ok (n : Int) := by
  refine ⟨fun text value => parse_eq_ok_iff, fun text hnone => ?_, fun text => ?_,
    fun n hn => parse_decimal (hasDecimal_iff.2 hn), fun n digits hdigits => ⟨?_, ?_⟩⟩
  · rcases hparse : parse text with error | value
    · exact ⟨error, rfl⟩
    · exact absurd (parse_eq_ok_iff.1 hparse) (hnone value)
  · simp only [isLiteral, ← parse_eq_ok_iff]
    cases parse text <;> simp [Except.toOption]
  · exact bounded_field_natCast n (by omega)
  · intro field hfield
    rw [Hex.field_eq_ok hfield]
    exact parse_hexText n digits.toNat

open UsualMachine in
theorem accepts_spelled_padded :
    Spelled "\t-007 " (-7) ∧ parse (decimal (-7)) = .ok (-7) ∧
      Hex.field 10 4 = .ok "000A" ∧ parse ("$" ++ "000A") = .ok 10 := by
  obtain ⟨hiff, -, -, hdecimal, hhex⟩ := accepts_spelled
  refine ⟨(hiff "\t-007 " (-7)).1 ?_, hdecimal (-7) ?_, ?_⟩
  · decide +kernel
  · exact hasDecimal_iff.1 (by decide +kernel)
  · obtain ⟨hfield, hread⟩ := hhex 10 4 (by decide)
    obtain ⟨text, htext⟩ := hfield.ok (by decide +kernel)
    obtain rfl : text = "000A" := (Hex.field_eq_ok htext).trans (by decide +kernel)
    exact ⟨htext, hread "000A" htext⟩

open UsualMachine in
/-- There is no field of more digits than can be counted. -/
theorem not_field_uncountable : ¬ ∃ field,
    Hex.field 255 100000000000000000000 = .ok field ∧ parse ("$" ++ field) = .ok 255 := by
  have hfails : (Hex.field 255 100000000000000000000).isOk = false := by decide +kernel
  rintro ⟨field, hfield, -⟩
  rw [hfield] at hfails
  cases hfails

end Literal

end Retarget
