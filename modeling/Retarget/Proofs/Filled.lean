import Retarget.Proofs.Language

/-!
# Filled formats

A format with values in its slots is a text.  It is cut into parts as the format is cut into
segments (`Lays`): each value is the part of its slot.  Where no slot stands behind another, what
follows a value is no word character, since the name of a slot takes all of them.  So each value is
the longest part that its slot could take, which is the first one that matching tries
(`captures_of_lays`).

The same holds if the text is turned into lower case, because each of its characters then has a
character in its place (`InCase`) that is the same letter, is blank if it is, and is no word
character if it is none.  The capital I with a dot is the exception: it becomes two characters.
-/

namespace Retarget

/-! ## Characters in lower case -/

namespace Text

/-- Whether `x` is the character `c`, or its lower case in some text. -/
def InCase (c x : Char) : Prop :=
  x = c ∨ x = lowerChar c ∨ c = 'Σ' ∧ x = 'ς'

/-- In lower case a text has one character for each, a capital I with a dot apart. -/
theorem forall₂_inCase_lowerFrom {s : List Char} (h : 'İ' ∉ s) (afterCased : Bool) :
    List.Forall₂ InCase s (lowerFrom afterCased s) := by
  induction s generalizing afterCased with
  | nil => exact .nil
  | cons c rest ih =>
    rw [List.mem_cons, not_or] at h
    rw [lowerFrom, lowerAt]
    split
    · rename_i hc
      obtain rfl := beq_iff_eq.1 hc
      refine .cons ?_ (ih h.2 _)
      split
      · exact .inr (.inr ⟨rfl, rfl⟩)
      · exact .inr (.inl (by decide +kernel))
    · rw [if_neg fun hc => h.1 (beq_iff_eq.1 hc).symm]
      exact .cons (.inr (.inl rfl)) (ih h.2 _)

section InCase

variable {c x : Char}

theorem InCase.sameLetter (h : InCase c x) : sameLetter c x = true := by
  rcases h with rfl | rfl | ⟨rfl, rfl⟩
  · exact sameLetter_self x
  · rw [sameLetter_iff, lowerChar_lowerChar]
    exact .inl rfl
  · decide +kernel

theorem InCase.isBlank_eq (h : InCase c x) : isBlank x = isBlank c := by
  rw [Bool.eq_iff_iff]
  exact ⟨isBlank_of_sameLetter h.sameLetter, isBlank_of_sameLetter (sameLetter_symm h.sameLetter)⟩

theorem InCase.isWord (h : InCase c x) (hc : isWord c = false) : isWord x = false := by
  rcases h with rfl | rfl | ⟨rfl, rfl⟩
  · exact hc
  · exact isWord_lowerChar hc
  · exact absurd hc (by decide +kernel)

/-- A character in lower case stays as it is. -/
theorem InCase.eq_of_lowerChar (h : InCase c x) (hc : lowerChar c = c) : x = c := by
  rcases h with rfl | rfl | ⟨rfl, rfl⟩
  · rfl
  · exact hc
  · exact absurd hc (by decide +kernel)

end InCase

end Text

/-! ## Filled formats -/

namespace Format

/-- The text of a format with values in its slots, in order. -/
def fill : List Piece → List String → List Char
  | [], _ => []
  | .char c :: rest, values => c :: fill rest values
  | .slot name :: rest, [] => '~' :: name.toList ++ fill rest []
  | .slot _ :: rest, value :: values => value.toList ++ fill rest values

theorem pieces_ne_nil {format : List Char} (h : format ≠ []) : pieces format ≠ [] := by
  fun_cases pieces format with
  | case1 => exact absurd rfl h
  | case2 c rest hslot => exact List.cons_ne_nil _ _
  | case3 c rest hchar => exact List.cons_ne_nil _ _

theorem fill_ne_nil {ps : List Piece} {values : List String} (hps : ps ≠ [])
    (hvalues : List.Forall₂ (fun _ value => value.toList ≠ []) (slotNames ps) values) :
    fill ps values ≠ [] := by
  cases ps with
  | nil => exact absurd rfl hps
  | cons p rest =>
    cases p with
    | char c => exact List.cons_ne_nil _ _
    | slot name =>
      change List.Forall₂ _ (name :: slotNames rest) values at hvalues
      cases hvalues with
      | cons hvalue _ => exact List.append_ne_nil_of_left_ne_nil hvalue _

/-- Whether a piece is a slot. -/
def Piece.isSlot : Piece → Bool
  | .slot _ => true
  | .char _ => false

/-- Whether no slot stands directly behind another. -/
def Apart (ps : List Piece) : Prop :=
  ps.IsChain fun p q => p.isSlot = true → q.isSlot = false

instance (ps : List Piece) : Decidable (Apart ps) :=
  inferInstanceAs (Decidable (ps.IsChain _))

/-- What the values of variables look like: a token is a word, a number has decimal digits or a
dollar sign and hexadecimal digits. -/
def Operand.Takes : Operand → List Char → Prop
  | .token, w => w ≠ [] ∧ ∀ c ∈ w, Text.isWord c = true
  | .number, w =>
    (w ≠ [] ∧ ∀ c ∈ w, Radix.isDecimalDigit c = true) ∨
      ∃ digits, w = '$' :: digits ∧ digits ≠ [] ∧ ∀ c ∈ digits, Radix.isHexDigit c = true

theorem Operand.Takes.admits {kind : Operand} {w : List Char} (h : kind.Takes w) :
    kind.Admits w := by
  cases kind with
  | token => exact h
  | number =>
    rcases h with h | h
    · exact .inl h
    · exact .inr (.inl h)

/-- `Lays tight segments s operands`: the text `s` is cut into parts, one for each segment, of which
`operands` are those for operands, and every gap takes all the blanks there are.  If it is `tight`,
no word character follows an operand. -/
def Lays (tight : Prop) : List Segment → List Char → List (List Char) → Prop
  | [], s, operands => s = [] ∧ operands = []
  | .letter c :: rest, s, operands =>
    ∃ x more, s = x :: more ∧ Text.sameLetter c x = true ∧ Lays tight rest more operands
  | .gap :: rest, s, operands =>
    ∃ blanks more, s = blanks ++ more ∧ (blanks ≠ [] ∧ ∀ c ∈ blanks, Text.isBlank c = true) ∧
      (∀ c ∈ more.head?, Text.isBlank c = false) ∧ Lays tight rest more operands
  | .operand kind :: rest, s, operands =>
    ∃ w more others, s = w ++ more ∧ kind.Takes w ∧
      (tight → ∀ c ∈ more.head?, Text.isWord c = false) ∧ operands = w :: others ∧
      Lays tight rest more others

section Lays

variable {tight : Prop} {segments : List Segment} {s : List Char} {operands : List (List Char)}

theorem Lays.fits (h : Lays tight segments s operands) : Fits segments s operands := by
  induction segments generalizing s operands with
  | nil => exact ⟨.inl h.1, h.2⟩
  | cons segment rest ih =>
    cases segment with
    | letter c =>
      obtain ⟨x, more, hs, hx, hrest⟩ := h
      exact ⟨x, more, hs, hx, ih hrest⟩
    | gap =>
      obtain ⟨blanks, more, hs, hblanks, -, hrest⟩ := h
      exact ⟨blanks, more, hs, hblanks, ih hrest⟩
    | operand kind =>
      obtain ⟨w, more, others, hs, hw, -, hops, hrest⟩ := h
      exact ⟨w, more, others, hs, hw.admits, hops, ih hrest⟩

/-- The front of a text of which all characters are of one kind, and the next one is not. -/
theorem countdown_takeWhile {p : Char → Bool} {w more : List Char} (hne : w ≠ [])
    (hw : ∀ c ∈ w, p c = true) (hmore : ∀ c ∈ more.head?, p c = false) :
    ∃ others, countdown ((w ++ more).takeWhile p).length = w.length :: others := by
  rw [takeWhile_of_ends hw hmore]
  cases w with
  | nil => exact absurd rfl hne
  | cons c w => exact ⟨countdown w.length, rfl⟩

/-- A value that no word character follows is the first choice for its operand. -/
theorem lengths_of_takes {kind : Operand} {w more : List Char} (hw : kind.Takes w)
    (hmore : ∀ c ∈ more.head?, Text.isWord c = false) :
    ∃ others, kind.lengths (w ++ more) = w.length :: others := by
  have hnot : ∀ {p : Char → Bool}, (∀ {c}, p c = true → Text.isWord c = true) →
      ∀ c ∈ more.head?, p c = false := by
    intro p hp c hc
    rw [Bool.eq_false_iff]
    intro hpc
    have hword := hp hpc
    rw [hmore c hc] at hword
    cases hword
  cases kind with
  | token => exact countdown_takeWhile hw.1 hw.2 hmore
  | number =>
    unfold Operand.lengths
    rcases hw with ⟨hne, hdigits⟩ | ⟨digits, rfl, hne, hdigits⟩
    · obtain ⟨others, hothers⟩ := countdown_takeWhile hne hdigits (hnot isWord_of_isDecimalDigit)
      exact ⟨others ++ hexLengths _ ++ wordLengths _, by rw [decimalLengths, hothers]; rfl⟩
    · obtain ⟨others, hothers⟩ := countdown_takeWhile hne hdigits (hnot isWord_of_isHexDigit)
      refine ⟨others.map (· + 1) ++ wordLengths ('$' :: digits ++ more), ?_⟩
      have hdecimal : decimalLengths ('$' :: digits ++ more) = [] := rfl
      have hhex : hexLengths ('$' :: digits ++ more) =
          (countdown ((digits ++ more).takeWhile Radix.isHexDigit).length).map (· + 1) := rfl
      rw [hdecimal, hhex, hothers]
      rfl

/-- **A tightly laid text is captured as it is laid.**  At every place the first choice leads on. -/
theorem captures_of_lays (h : Lays True segments s operands) :
    captures segments s = some operands := by
  induction segments generalizing s operands with
  | nil =>
    obtain ⟨rfl, rfl⟩ := h
    rfl
  | cons segment rest ih =>
    cases segment with
    | letter c =>
      obtain ⟨x, more, rfl, hx, hrest⟩ := h
      rw [captures, if_pos hx]
      exact ih hrest
    | gap =>
      obtain ⟨blanks, more, rfl, ⟨hne, hall⟩, hends, hrest⟩ := h
      obtain ⟨others, hothers⟩ := countdown_takeWhile hne hall hends
      rw [captures, hothers, List.findSome?_cons, List.drop_left, ih hrest]
    | operand kind =>
      obtain ⟨w, more, others, rfl, hw, hends, rfl, hrest⟩ := h
      obtain ⟨lengths, hlengths⟩ := lengths_of_takes hw (hends trivial)
      rw [captures, hlengths, List.findSome?_cons, List.drop_left, List.take_left, ih hrest]
      rfl

/-- A character of the format in front of a laid text. -/
theorem Lays.consChar {c x : Char} (htidy : Tidy segments) (h : Lays tight segments s operands)
    (hx : Text.InCase c x) : Lays tight (consChar c segments) (x :: s) operands := by
  by_cases hb : Text.isBlank c = true
  · have hxb : Text.isBlank x = true := hx.isBlank_eq.trans hb
    rw [consChar_blank hb]
    split
    · rename_i hgap
      obtain ⟨rest, rfl⟩ : ∃ rest, segments = .gap :: rest := by
        cases segments with
        | nil => cases hgap
        | cons first rest => exact ⟨rest, by rw [Option.some.inj hgap]⟩
      obtain ⟨blanks, more, rfl, ⟨-, hall⟩, hends, hrest⟩ := h
      refine ⟨x :: blanks, more, rfl, ⟨List.cons_ne_nil _ _, ?_⟩, hends, hrest⟩
      exact List.forall_mem_cons.2 ⟨hxb, hall⟩
    · rename_i hgap
      refine ⟨[x], s, rfl, ⟨List.cons_ne_nil _ _, by simpa using hxb⟩, ?_, h⟩
      by_cases hne : segments = []
      · subst hne
        rw [h.1]
        simp
      · exact head_not_blank ⟨hgap, htidy⟩ hne h.fits
  · have hb : Text.isBlank c = false := by simpa using hb
    rw [consChar_letter hb]
    exact ⟨x, s, rfl, hx.sameLetter, h⟩

end Lays

/-! ## Laying a filled format -/

/-- Whether what follows a piece does not go on with a word, if the piece is a slot. -/
def Piece.Ends (p q : Piece) : Prop :=
  p.isSlot = true → ∀ c, q = .char c → Text.isWord c = false

/-- The name of a slot is a whole word. -/
theorem isChain_pieces (format : List Char) : (pieces format).IsChain Piece.Ends := by
  fun_induction pieces format with
  | case1 => exact .nil
  | case2 c rest hslot ih =>
    refine List.isChain_cons.2 ⟨fun q hq _ d hd => ?_, ih⟩
    rcases hrest : rest.dropWhile Text.isWord with _ | ⟨e, more⟩
    · rw [hrest, pieces] at hq
      cases hq
    · have he : Text.isWord e = false := by
        have hhead := List.head?_dropWhile_not Text.isWord rest
        rw [hrest] at hhead
        simpa using hhead
      rw [hrest, pieces] at hq
      subst hd
      split at hq
      · cases hq
      · cases hq
        exact he
  | case3 c rest hchar ih =>
    refine List.isChain_cons.2 ⟨fun q hq hslot => ?_, ih⟩
    cases hslot

theorem exists_of_forall₂_append {α β : Type} {related : α → β → Prop} {u v : List α} {s : List β}
    (h : List.Forall₂ related (u ++ v) s) :
    ∃ w more, s = w ++ more ∧ List.Forall₂ related u w ∧ List.Forall₂ related v more := by
  induction u generalizing s with
  | nil => exact ⟨[], s, rfl, .nil, h⟩
  | cons c u ih =>
    cases h with
    | cons hc hrest =>
      obtain ⟨w, more, rfl, hu, hv⟩ := ih hrest
      exact ⟨_ :: w, more, rfl, .cons hc hu, hv⟩

/-- **A filled format is laid by its segments**, also in lower case.  The operands are the values,
as they stand in the text.  It is tight if no two slots are next to each other. -/
theorem exists_lays_fill {kindOf : String → Operand} {tight : Prop} {related : Char → Char → Prop}
    (hrelated : ∀ {c x}, related c x → Text.InCase c x) {ps : List Piece} {values : List String}
    {s : List Char} (hends : ps.IsChain Piece.Ends) (htight : tight → Apart ps)
    (hvalues : List.Forall₂ (fun name value => ∀ w, List.Forall₂ related value.toList w →
      (kindOf name).Takes w) (slotNames ps) values)
    (hs : List.Forall₂ related (fill ps values) s) :
    ∃ operands, Lays tight (segments kindOf ps) s operands ∧
      List.Forall₂ (fun value w => List.Forall₂ related value.toList w) values operands := by
  induction ps generalizing values s with
  | nil =>
    cases hvalues
    cases hs
    exact ⟨[], ⟨rfl, rfl⟩, .nil⟩
  | cons p rest ih =>
    obtain ⟨hnext, hlater⟩ := List.isChain_cons.1 hends
    have happart : tight → Apart rest := fun ht => (List.isChain_cons.1 (htight ht)).2
    cases p with
    | char c =>
      rw [fill] at hs
      cases hs with
      | cons hx hs =>
        obtain ⟨operands, hlays, hops⟩ := ih hlater happart hvalues hs
        exact ⟨operands, hlays.consChar (tidy_segments rest) (hrelated hx), hops⟩
    | slot name =>
      change List.Forall₂ _ (name :: slotNames rest) values at hvalues
      cases hvalues with
      | @cons _ value _ values hvalue hvalues =>
        rw [fill] at hs
        obtain ⟨w, more, rfl, hw, hmore⟩ := exists_of_forall₂_append hs
        obtain ⟨operands, hlays, hops⟩ := ih hlater happart hvalues hmore
        refine ⟨w :: operands, ⟨w, more, operands, rfl, hvalue w hw, fun ht d hd => ?_, rfl, hlays⟩,
          .cons hw hops⟩
        -- What stands behind the value is the character behind the slot.
        cases rest with
        | nil =>
          rw [fill] at hmore
          cases hmore
          cases hd
        | cons q rest =>
          cases q with
          | slot other =>
            have hslot := (List.isChain_cons.1 (htight ht)).1 (.slot other) rfl rfl
            cases hslot
          | char c =>
            rw [fill] at hmore
            cases hmore with
            | cons hx _ =>
              obtain rfl := Option.some.inj hd
              exact (hrelated hx).isWord (hnext (.char c) rfl rfl c rfl)

end Format

/-! ## Numerals -/

/-- The number that a numeral stands for: decimal digits, or a dollar sign and hexadecimal ones. -/
def numeral? : List Char → Option Nat
  | '$' :: digits =>
    if digits ≠ [] ∧ digits.all Radix.isHexDigit then some (Radix.read 16 digits) else none
  | digits =>
    if digits ≠ [] ∧ digits.all Radix.isDecimalDigit then some (Radix.read 10 digits) else none

theorem numeral?_eq_some {s : List Char} {n : Nat} (h : numeral? s = some n) :
    (∃ digits, s = '$' :: digits ∧ digits ≠ [] ∧ (∀ c ∈ digits, Radix.isHexDigit c = true) ∧
      n = Radix.read 16 digits) ∨
    s ≠ [] ∧ (∀ c ∈ s, Radix.isDecimalDigit c = true) ∧ n = Radix.read 10 s := by
  unfold numeral? at h
  split at h
  · rename_i digits
    split at h
    · rename_i hdigits
      cases h
      exact .inl ⟨digits, rfl, hdigits.1, List.all_eq_true.1 hdigits.2, rfl⟩
    · cases h
  · split at h
    · rename_i hdigits
      cases h
      exact .inr ⟨hdigits.1, List.all_eq_true.1 hdigits.2, rfl⟩
    · cases h

/-- A numeral is a number in the source. -/
theorem takes_of_numeral? {s : List Char} {n : Nat} (h : numeral? s = some n) :
    Format.Operand.number.Takes s := by
  rcases numeral?_eq_some h with ⟨digits, rfl, hne, hdigits, -⟩ | ⟨hne, hdigits, -⟩
  · exact .inr ⟨digits, rfl, hne, hdigits⟩
  · exact .inl ⟨hne, hdigits⟩

section Numerals

variable {s w : List Char} {c x : Char} {n : Nat}

/-- The lower case of a digit is a digit of the same value. -/
theorem digitValue?_of_inCase (h : Text.InCase c x) (hc : Radix.isHexDigit c = true) :
    Radix.digitValue? x = Radix.digitValue? c := by
  have hvalue : Radix.digitValue? (Text.lowerChar c) = Radix.digitValue? c :=
    Text.ascii_induction (P := fun c => Radix.digitValue? (Text.lowerChar c) = Radix.digitValue? c)
      (by decide +kernel) (Format.toNat_lt_of_isHexDigit hc)
  rcases h with rfl | rfl | ⟨rfl, rfl⟩
  · rfl
  · exact hvalue
  · exact absurd hc (by decide)

theorem hexDigits_of_inCase (h : List.Forall₂ Text.InCase s w)
    (hs : ∀ c ∈ s, Radix.isHexDigit c = true) :
    (∀ c ∈ w, Radix.isHexDigit c = true) ∧ Radix.read 16 w = Radix.read 16 s := by
  have hvalues : w.map Radix.digitValue? = s.map Radix.digitValue? := by
    induction h with
    | nil => rfl
    | cons hx _ ih =>
      obtain ⟨hc, hs⟩ := List.forall_mem_cons.1 hs
      rw [List.map_cons, List.map_cons, digitValue?_of_inCase hx hc, ih hs]
  constructor
  · intro x hx
    have hmem : Radix.digitValue? x ∈ s.map Radix.digitValue? := hvalues ▸ List.mem_map_of_mem hx
    obtain ⟨c, hc, hcx⟩ := List.mem_map.1 hmem
    rw [Radix.isHexDigit, ← hcx]
    exact hs c hc
  · have hread : ∀ t, Radix.read 16 t =
        Radix.value 16 ((t.map Radix.digitValue?).map (Option.getD · 0)) := by
      intro t
      rw [List.map_map]
      rfl
    rw [hread, hread, hvalues]

theorem eq_of_inCase_lower (h : List.Forall₂ Text.InCase s w)
    (hs : ∀ c ∈ s, Text.lowerChar c = c) : w = s := by
  induction h with
  | nil => rfl
  | cons hx _ ih =>
    obtain ⟨hc, hs⟩ := List.forall_mem_cons.1 hs
    rw [hx.eq_of_lowerChar hc, ih hs]

/-- A numeral stands for the same number in lower case. -/
theorem numeral?_of_inCase (h : List.Forall₂ Text.InCase s w) (hs : numeral? s = some n) :
    numeral? w = some n := by
  rcases numeral?_eq_some hs with ⟨digits, rfl, hne, hdigits, rfl⟩ | ⟨hne, hdigits, rfl⟩
  · cases h with
    | @cons _ x _ digits' hx hrest =>
      obtain rfl := hx.eq_of_lowerChar (by decide)
      obtain ⟨hdigits', hread⟩ := hexDigits_of_inCase hrest hdigits
      have hne' : digits' ≠ [] := by
        rintro rfl
        exact hne (List.forall₂_nil_right_iff.1 hrest)
      rw [numeral?, if_pos ⟨hne', List.all_eq_true.2 hdigits'⟩, hread]
  · rw [eq_of_inCase_lower h fun c hc => ?_]
    · exact hs
    · have hdigit := hdigits c hc
      have hascii := Format.toNat_lt_of_isHexDigit (Format.isHexDigit_of_isDecimalDigit hdigit)
      revert hdigit
      exact Text.ascii_induction
        (P := fun c => Radix.isDecimalDigit c = true → Text.lowerChar c = c) (by decide +kernel)
        hascii

end Numerals

end Retarget
