import Retarget.Proofs.Letters
import Retarget.Rule

/-!
# The language of a format

A format is a text with slots in it.  `Spells` says which texts have the format: every letter of the
format stands for a letter that is the same up to case, every run of blanks for some run of blanks,
and every slot for an operand of its variable.  It is a relation between two texts and knows nothing
of pieces, segments or an order of preference.

A rule matches exactly the lines that its format spells, what it captures are the operands of one
such spelling, and where the slots of the format are kept apart there is no other
(`captures_iff_spells`).
-/

namespace Retarget

namespace Format

/-! ## Operands -/

/-- What may stand for an operand. -/
def Operand.Admits : Operand → List Char → Prop
  | .token, w => w ≠ [] ∧ ∀ c ∈ w, Text.isWord c = true
  | .number, w =>
    (w ≠ [] ∧ ∀ c ∈ w, Radix.isDecimalDigit c = true) ∨
      (∃ digits, w = '$' :: digits ∧ digits ≠ [] ∧ ∀ c ∈ digits, Radix.isHexDigit c = true) ∨
      (w ≠ [] ∧ ∀ c ∈ w, Text.isWord c = true)

/-- Counting down from the end of a run gives the lengths of the fronts that the run has. -/
theorem mem_countdown_takeWhile (p : Char → Bool) (s : List Char) (n : Nat) :
    n ∈ countdown (s.takeWhile p).length ↔
      n ≤ s.length ∧ s.take n ≠ [] ∧ ∀ c ∈ s.take n, p c = true := by
  rw [mem_countdown]
  induction s generalizing n with
  | nil => simp; omega
  | cons c rest ih =>
    cases n with
    | zero => simp
    | succ n =>
      by_cases hc : p c = true
      · cases n with
        | zero => simp [hc]
        | succ n =>
          have := ih (n + 1)
          simp only [List.takeWhile_cons, hc, if_true, List.length_cons, List.take_succ_cons,
            List.mem_cons, forall_eq_or_imp] at this ⊢
          cases rest with
          | nil => simp
          | cons d more => simp_all
      · simp [hc]

/-- **The lengths of an operand**: those of the fronts of a text that may stand for it. -/
theorem mem_lengths (kind : Operand) (s : List Char) (n : Nat) :
    n ∈ kind.lengths s ↔ n ≤ s.length ∧ kind.Admits (s.take n) := by
  cases kind with
  | token => exact mem_countdown_takeWhile Text.isWord s n
  | number =>
    have hhex : n ∈ hexLengths s ↔ n ≤ s.length ∧ ∃ digits, s.take n = '$' :: digits ∧
        digits ≠ [] ∧ ∀ c ∈ digits, Radix.isHexDigit c = true := by
      unfold hexLengths
      split
      · rename_i digits
        cases n with
        | zero => simp
        | succ n => simp [mem_countdown_takeWhile]
      · rename_i hne
        cases s with
        | nil => simp
        | cons c rest =>
          cases n with
          | zero => simp
          | succ n =>
            have : c ≠ '$' := fun h => hne rest (by rw [h])
            simp [this]
    rw [Operand.lengths, List.mem_append, List.mem_append, hhex, wordLengths, decimalLengths,
      mem_countdown_takeWhile, mem_countdown_takeWhile, ← and_or_left, ← and_or_left, or_assoc,
      Operand.Admits]

/-! ## Matching as a relation -/

/-- `Fits segments s operands`: the text `s`, but for a line break at its end, is cut into parts,
one for each segment, and `operands` are the parts for operands. -/
def Fits : List Segment → List Char → List (List Char) → Prop
  | [], s, operands => (s = [] ∨ s = ['\n']) ∧ operands = []
  | .letter c :: rest, s, operands =>
    ∃ x more, s = x :: more ∧ Text.sameLetter c x = true ∧ Fits rest more operands
  | .gap :: rest, s, operands =>
    ∃ blanks more, s = blanks ++ more ∧ (blanks ≠ [] ∧ ∀ c ∈ blanks, Text.isBlank c = true) ∧
      Fits rest more operands
  | .operand kind :: rest, s, operands =>
    ∃ w more others, s = w ++ more ∧ kind.Admits w ∧ operands = w :: others ∧ Fits rest more others

/-- What is captured is a way to cut the text. -/
theorem fits_of_captures {segments : List Segment} {s : List Char} {operands : List (List Char)}
    (h : captures segments s = some operands) : Fits segments s operands := by
  induction segments generalizing s operands with
  | nil =>
    rw [captures] at h
    split at h
    · rename_i hs
      exact ⟨hs, (Option.some.inj h).symm⟩
    · cases h
  | cons segment rest ih =>
    cases segment with
    | letter c =>
      cases s with
      | nil => cases h
      | cons x more =>
        rw [captures] at h
        split at h
        · rename_i hx
          exact ⟨x, more, rfl, hx, ih h⟩
        · cases h
    | gap =>
      rw [captures, List.findSome?_eq_some_iff] at h
      obtain ⟨before, n, after, hcount, hrest, -⟩ := h
      have hn : n ∈ countdown (s.takeWhile Text.isBlank).length := by rw [hcount]; simp
      obtain ⟨-, hne, hall⟩ := (mem_countdown_takeWhile _ _ _).mp hn
      exact ⟨s.take n, s.drop n, (List.take_append_drop n s).symm, ⟨hne, hall⟩, ih hrest⟩
    | operand kind =>
      rw [captures, List.findSome?_eq_some_iff] at h
      obtain ⟨before, n, after, hcount, hrest, -⟩ := h
      have hn : n ∈ kind.lengths s := by rw [hcount]; simp
      obtain ⟨others, hothers, rfl⟩ := Option.map_eq_some_iff.mp hrest
      exact ⟨s.take n, s.drop n, others, (List.take_append_drop n s).symm,
        ((mem_lengths kind s n).mp hn).2, rfl, ih hothers⟩

/-- A text that can be cut is captured in some way. -/
theorem captures_of_fits {segments : List Segment} {s : List Char} {operands : List (List Char)}
    (h : Fits segments s operands) : (captures segments s).isSome = true := by
  induction segments generalizing s operands with
  | nil => rw [captures, if_pos h.1]; rfl
  | cons segment rest ih =>
    cases segment with
    | letter c =>
      obtain ⟨x, more, rfl, hx, hrest⟩ := h
      rw [captures, if_pos hx]
      exact ih hrest
    | gap =>
      obtain ⟨blanks, more, rfl, ⟨hne, hall⟩, hrest⟩ := h
      rw [captures, List.findSome?_isSome_iff]
      refine ⟨blanks.length, (mem_countdown_takeWhile _ _ _).mpr ?_, ?_⟩
      · rw [List.take_left]
        exact ⟨by simp, hne, hall⟩
      · rw [List.drop_left]
        exact ih hrest
    | operand kind =>
      obtain ⟨w, more, others, rfl, hw, rfl, hrest⟩ := h
      rw [captures, List.findSome?_isSome_iff]
      refine ⟨w.length, (mem_lengths _ _ _).mpr ?_, ?_⟩
      · rw [List.take_left]
        exact ⟨by simp, hw⟩
      · rw [List.drop_left, Option.isSome_map]
        exact ih hrest

/-! ## One way to cut a text -/

/-- A character of which operands are made. -/
def IsInner (c : Char) : Prop := Text.isWord c = true ∨ c = '$'

/-- A character that keeps operands apart: neither it nor the same letter in another case can be
part of an operand. -/
def Separator (c : Char) : Prop := ∀ x, Text.sameLetter c x = true → ¬ IsInner x

/-- A blank keeps operands apart. -/
theorem separator_of_isBlank {c : Char} (h : Text.isBlank c = true) : Separator c := by
  intro x hx hinner
  have hb : Text.isBlank x = true := Text.isBlank_of_sameLetter (Text.sameLetter_symm hx) h
  rcases hinner with hword | rfl
  · rw [Text.isWord_of_isBlank hb] at hword
    cases hword
  · cases hb

theorem not_isBlank_of_isInner {c : Char} (h : IsInner c) : Text.isBlank c = false := by
  rcases h with h | rfl
  · exact Text.isBlank_of_isWord h
  · rfl

theorem toNat_lt_of_isHexDigit {c : Char} (h : Radix.isHexDigit c = true) : c.toNat < 128 := by
  unfold Radix.isHexDigit Radix.digitValue? at h
  dsimp only at h
  split at h
  · omega
  · split at h
    · omega
    · split at h
      · omega
      · cases h

theorem isWord_of_isHexDigit {c : Char} (h : Radix.isHexDigit c = true) : Text.isWord c = true := by
  have hc := toNat_lt_of_isHexDigit h
  revert h
  exact Text.ascii_induction (P := fun c => Radix.isHexDigit c = true → Text.isWord c = true)
    (by decide +kernel) hc

theorem isHexDigit_of_isDecimalDigit {c : Char} (h : Radix.isDecimalDigit c = true) :
    Radix.isHexDigit c = true := by
  rw [Radix.isDecimalDigit, decide_eq_true_eq] at h
  rw [Radix.isHexDigit, Radix.digitValue?, if_pos h]
  rfl

theorem isWord_of_isDecimalDigit {c : Char} (h : Radix.isDecimalDigit c = true) :
    Text.isWord c = true :=
  isWord_of_isHexDigit (isHexDigit_of_isDecimalDigit h)

/-- An operand is not empty and made of inner characters. -/
theorem isInner_of_admits {kind : Operand} {w : List Char} (h : kind.Admits w) :
    w ≠ [] ∧ ∀ c ∈ w, IsInner c := by
  cases kind with
  | token => exact ⟨h.1, fun c hc => Or.inl (h.2 c hc)⟩
  | number =>
    rcases h with ⟨hne, h⟩ | ⟨digits, rfl, -, h⟩ | ⟨hne, h⟩
    · exact ⟨hne, fun c hc => Or.inl (isWord_of_isDecimalDigit (h c hc))⟩
    · refine ⟨List.cons_ne_nil _ _, fun c hc => ?_⟩
      rcases List.mem_cons.mp hc with rfl | hc
      · exact Or.inr rfl
      · exact Or.inl (isWord_of_isHexDigit (h c hc))
    · exact ⟨hne, fun c hc => Or.inl (h c hc)⟩

/-- Before the next operand comes something that keeps it apart from what went before. -/
def Guarded : List Segment → Prop
  | [] => True
  | .letter c :: rest => Separator c ∨ Guarded rest
  | .gap :: _ => True
  | .operand _ :: _ => False

/-- Every operand is kept apart from the next one. -/
def Parted : List Segment → Prop
  | [] => True
  | .operand _ :: rest => Guarded rest ∧ Parted rest
  | _ :: rest => Parted rest

/-- Letters are not blank and no gap follows a gap. -/
def Tidy : List Segment → Prop
  | [] => True
  | .letter c :: rest => Text.isBlank c = false ∧ Tidy rest
  | .gap :: rest => rest.head? ≠ some .gap ∧ Tidy rest
  | .operand _ :: rest => Tidy rest

/-- Where an operand is guarded from the next one, it cannot be made longer: the characters `extra`,
each the same letter as an inner character, do not go in front of another way to cut the text. -/
theorem eq_nil_of_guarded {segments : List Segment} (hg : Guarded segments) {s extra : List Char}
    {operands others : List (List Char)}
    (hextra : ∀ x ∈ extra, ∃ c, IsInner c ∧ Text.sameLetter c x = true)
    (h : Fits segments (extra ++ s) operands) (h' : Fits segments s others) : extra = [] := by
  -- Each letter moves the extra characters on by one, and the one it takes in is of their kind.
  induction segments generalizing s extra operands others with
  | nil =>
    cases extra with
    | nil => rfl
    | cons x more =>
      obtain ⟨c, hc, hx⟩ := hextra x List.mem_cons_self
      rcases h.1 with h | h
      · cases h
      · have hx' : x = '\n' := (List.cons.inj h).1
        have := Text.isBlank_of_sameLetter hx (by rw [hx']; rfl)
        rw [not_isBlank_of_isInner hc] at this
        cases this
  | cons segment rest ih =>
    cases extra with
    | nil => rfl
    | cons x more =>
      obtain ⟨c, hc, hx⟩ := hextra x List.mem_cons_self
      cases segment with
      | operand kind => exact hg.elim
      | gap =>
        obtain ⟨blanks, after, hs, ⟨hne, hall⟩, -⟩ := h
        cases blanks with
        | nil => exact absurd rfl hne
        | cons b blanks =>
          obtain rfl : x = b := (List.cons.inj hs).1
          have := Text.isBlank_of_sameLetter hx (hall x List.mem_cons_self)
          rw [not_isBlank_of_isInner hc] at this
          cases this
      | letter d =>
        obtain ⟨y, after, hs, hy, hrest⟩ := h
        obtain ⟨rfl, rfl⟩ := List.cons.inj hs
        obtain ⟨z, after', rfl, hz, hrest'⟩ := h'
        by_cases hd : Separator d
        · exact absurd hc (hd c (Text.sameLetter_trans hy (Text.sameLetter_symm hx)))
        · rw [Separator] at hd
          push Not at hd
          obtain ⟨e, hde, he⟩ := hd
          have hkind : ∀ w ∈ more ++ [z], ∃ c, IsInner c ∧ Text.sameLetter c w = true := by
            intro w hw
            rcases List.mem_append.mp hw with hw | hw
            · exact hextra w (List.mem_cons_of_mem x hw)
            · rw [List.mem_singleton.mp hw]
              exact ⟨e, he, Text.sameLetter_trans (Text.sameLetter_symm hde) hz⟩
          have hcut : Fits rest ((more ++ [z]) ++ after') operands := by
            rw [List.append_assoc]
            exact hrest
          have hmore := ih (hg.resolve_left fun h => h e hde he) hkind hcut hrest'
          simp at hmore

/-- Two fronts of one text that are followed by ways to cut the rest at a guarded place are
equal. -/
theorem eq_of_guarded {segments : List Segment} (hg : Guarded segments) {v w s t : List Char}
    {operands others : List (List Char)} (hv : ∀ c ∈ v, IsInner c) (hw : ∀ c ∈ w, IsInner c)
    (h : v ++ s = w ++ t) (hs : Fits segments s operands) (ht : Fits segments t others) :
    v = w := by
  rcases List.append_eq_append_iff.mp h with ⟨extra, rfl, rfl⟩ | ⟨extra, rfl, rfl⟩
  · have : extra = [] := eq_nil_of_guarded hg
      (fun x hx => ⟨x, hw x (List.mem_append_right _ hx), Text.sameLetter_self x⟩) hs ht
    rw [this, List.append_nil]
  · have : extra = [] := eq_nil_of_guarded hg
      (fun x hx => ⟨x, hv x (List.mem_append_right _ hx), Text.sameLetter_self x⟩) ht hs
    rw [this, List.append_nil]

/-- What follows a gap does not start with a blank. -/
theorem head_not_blank {segments : List Segment} (ht : Tidy (.gap :: segments))
    (hne : segments ≠ [])
    {s : List Char} {operands : List (List Char)} (h : Fits segments s operands) :
    ∀ c ∈ s.head?, Text.isBlank c = false := by
  cases segments with
  | nil => exact absurd rfl hne
  | cons segment rest =>
    cases segment with
    | gap => exact absurd rfl ht.1
    | letter d =>
      obtain ⟨x, more, rfl, hx, -⟩ := h
      rintro c hc
      obtain rfl : x = c := by simpa using hc
      rw [Bool.eq_false_iff]
      intro hb
      have := Text.isBlank_of_sameLetter hx hb
      rw [ht.2.1] at this
      cases this
    | operand kind =>
      obtain ⟨w, more, others, rfl, hw, -, -⟩ := h
      obtain ⟨hne, hall⟩ := isInner_of_admits hw
      cases w with
      | nil => exact absurd rfl hne
      | cons x w =>
        rintro c hc
        obtain rfl : x = c := by simpa using hc
        exact not_isBlank_of_isInner (hall x List.mem_cons_self)

/-- A front of characters of one kind, and then nothing more or another character. -/
theorem takeWhile_of_ends {p : Char → Bool} {w more : List Char} (hw : ∀ c ∈ w, p c = true)
    (hmore : ∀ c ∈ more.head?, p c = false) : (w ++ more).takeWhile p = w := by
  rw [List.takeWhile_append_of_pos hw]
  cases more with
  | nil => simp
  | cons c more => simp [hmore c rfl]

/-- Two fronts of one text of blanks only, each followed by something that is not blank, are
equal. -/
theorem blanks_unique {v w s t : List Char} (hv : ∀ c ∈ v, Text.isBlank c = true)
    (hw : ∀ c ∈ w, Text.isBlank c = true) (hs : ∀ c ∈ s.head?, Text.isBlank c = false)
    (ht : ∀ c ∈ t.head?, Text.isBlank c = false) (h : v ++ s = w ++ t) : v = w ∧ s = t := by
  have hvw : v = w := by rw [← takeWhile_of_ends hv hs, h, takeWhile_of_ends hw ht]
  subst hvw
  exact ⟨rfl, List.append_cancel_left h⟩

/-- **Where operands are kept apart, a text can be cut in one way only.** -/
theorem fits_unique {segments : List Segment} (ht : Tidy segments) (hp : Parted segments)
    {s : List Char} {operands others : List (List Char)} (h : Fits segments s operands)
    (h' : Fits segments s others) : operands = others := by
  induction segments generalizing s operands others with
  | nil => rw [h.2, h'.2]
  | cons segment rest ih =>
    cases segment with
    | letter c =>
      obtain ⟨x, more, rfl, -, hrest⟩ := h
      obtain ⟨x', more', hs, -, hrest'⟩ := h'
      obtain ⟨rfl, rfl⟩ := List.cons.inj hs
      exact ih ht.2 hp hrest hrest'
    | gap =>
      obtain ⟨blanks, more, rfl, ⟨-, hall⟩, hrest⟩ := h
      obtain ⟨blanks', more', hs, ⟨-, hall'⟩, hrest'⟩ := h'
      by_cases hne : rest = []
      · subst hne
        rw [hrest.2, hrest'.2]
      · obtain ⟨-, rfl⟩ := blanks_unique hall hall' (head_not_blank ht hne hrest)
          (head_not_blank ht hne hrest') hs
        exact ih ht.2 hp hrest hrest'
    | operand kind =>
      obtain ⟨w, more, rest₁, rfl, hw, rfl, hrest⟩ := h
      obtain ⟨w', more', rest₂, hs, hw', rfl, hrest'⟩ := h'
      obtain rfl : w = w' :=
        eq_of_guarded hp.1 (isInner_of_admits hw).2 (isInner_of_admits hw').2 hs
        hrest hrest'
      obtain rfl := List.append_cancel_left hs
      rw [ih ht hp.2 hrest hrest']

/-! ## Pieces and segments of a written format -/

theorem pieces_char {c : Char} {rest : List Char}
    (h : c = '~' → ∀ d ∈ rest.head?, Text.isWord d = false) :
    pieces (c :: rest) = .char c :: pieces rest := by
  rw [pieces, if_neg]
  rw [Bool.and_eq_true, beq_iff_eq]
  rintro ⟨hc, hword⟩
  cases rest with
  | nil => simp at hword
  | cons d more => simp [h hc d rfl] at hword

theorem pieces_slot {name rest : List Char} (hne : name ≠ [])
    (hname : ∀ c ∈ name, Text.isWord c = true) (hrest : ∀ c ∈ rest.head?, Text.isWord c = false) :
    pieces ('~' :: (name ++ rest)) = .slot (String.ofList name) :: pieces rest := by
  have htake := takeWhile_of_ends hname hrest
  have hdrop : (name ++ rest).dropWhile Text.isWord = rest := by
    rw [List.dropWhile_append_of_pos hname]
    cases rest with
    | nil => simp
    | cons c more => simp [hrest c rfl]
  rw [pieces, htake, hdrop, if_pos]
  simpa using hne

theorem pieces_blanks {run : List Char} (h : ∀ c ∈ run, Text.isBlank c = true) (rest : List Char) :
    pieces (run ++ rest) = run.map .char ++ pieces rest := by
  induction run with
  | nil => rfl
  | cons c run ih =>
    have hc : c ≠ '~' := by
      rintro rfl
      exact absurd (h _ List.mem_cons_self) (by decide)
    rw [List.cons_append, pieces_char fun e => absurd e hc, List.map_cons, List.cons_append,
      ih fun d hd => h d (List.mem_cons_of_mem c hd)]

variable {kindOf : String → Operand}

theorem consChar_letter {c : Char} (h : Text.isBlank c = false) (segs : List Segment) :
    consChar c segs = .letter c :: segs := by
  unfold consChar
  rw [if_neg (by simp [h])]

/-- A blank starts a gap or joins the one that follows. -/
theorem consChar_blank {c : Char} (h : Text.isBlank c = true) (segs : List Segment) :
    consChar c segs = if segs.head? = some .gap then segs else .gap :: segs := by
  unfold consChar
  rw [if_pos h]
  split
  · rfl
  · rename_i hne
    rw [if_neg]
    intro he
    cases segs with
    | nil => cases he
    | cons first more => exact hne more (by rw [Option.some.inj he])

theorem segments_char {c : Char} (h : Text.isBlank c = false) (ps : List Piece) :
    segments kindOf (.char c :: ps) = .letter c :: segments kindOf ps := by
  rw [segments, consChar_letter h]

/-- A run of blanks is one gap. -/
theorem segments_blanks {run : List Char} (hne : run ≠ []) (h : ∀ c ∈ run, Text.isBlank c = true)
    {ps : List Piece} (hps : (segments kindOf ps).head? ≠ some .gap) :
    segments kindOf (run.map .char ++ ps) = .gap :: segments kindOf ps := by
  induction run with
  | nil => exact absurd rfl hne
  | cons c run ih =>
    rw [List.map_cons, List.cons_append, segments, consChar_blank (h c List.mem_cons_self)]
    by_cases hrun : run = []
    · subst hrun
      rw [List.map_nil, List.nil_append, if_neg hps]
    · rw [ih hrun fun d hd => h d (List.mem_cons_of_mem c hd), List.head?_cons, if_pos rfl]

/-- A format that does not start with a blank does not start with a gap. -/
theorem segments_head_ne_gap {format : List Char} (h : ∀ c ∈ format.head?, Text.isBlank c = false) :
    (segments kindOf (pieces format)).head? ≠ some .gap := by
  cases format with
  | nil => simp [pieces, segments]
  | cons c rest =>
    rw [pieces]
    split
    · simp [segments]
    · rw [segments_char (h c rfl)]
      simp

theorem tidy_consChar {c : Char} {segs : List Segment} (h : Tidy segs) :
    Tidy (consChar c segs) := by
  by_cases hb : Text.isBlank c = true
  · rw [consChar_blank hb]
    split
    · exact h
    · rename_i hne
      exact ⟨hne, h⟩
  · have hb : Text.isBlank c = false := by simpa using hb
    rw [consChar_letter hb]
    exact ⟨hb, h⟩

/-- The segments of pieces are tidy. -/
theorem tidy_segments (ps : List Piece) : Tidy (segments kindOf ps) := by
  induction ps with
  | nil => trivial
  | cons piece rest ih =>
    cases piece with
    | char c => exact tidy_consChar ih
    | slot name => exact ih

/-- The literals of a format: what stands in front of its slots, between them and behind them. -/
def literals : List Piece → List (List Char)
  | [] => [[]]
  | .slot _ :: rest => [] :: literals rest
  | .char c :: rest => (literals rest).modifyHead (c :: ·)

/-- Every literal between two slots holds a character that keeps operands apart. -/
def Separated (ps : List Piece) : Prop :=
  ∀ literal ∈ (literals ps).tail.dropLast, ∃ c ∈ literal, Separator c

theorem exists_literals (ps : List Piece) : ∃ literal more, literals ps = literal :: more := by
  induction ps with
  | nil => exact ⟨[], [], rfl⟩
  | cons piece rest ih =>
    obtain ⟨literal, more, h⟩ := ih
    cases piece with
    | slot name => exact ⟨[], literals rest, rfl⟩
    | char c => exact ⟨c :: literal, more, by rw [literals, h]; rfl⟩

/-- A separator in the first literal guards from the first slot, if there is one. -/
theorem guarded_segments {ps : List Piece}
    (h : ∀ literal more, literals ps = literal :: more → more ≠ [] → ∃ c ∈ literal, Separator c) :
    Guarded (segments kindOf ps) := by
  induction ps with
  | nil => trivial
  | cons piece rest ih =>
    obtain ⟨literal, more, hrest⟩ := exists_literals rest
    cases piece with
    | slot name =>
      obtain ⟨c, hc, -⟩ := h [] (literals rest) rfl (by rw [hrest]; simp)
      cases hc
    | char c =>
      have hcons : literals (.char c :: rest) =
          (c :: literal) :: more := by rw [literals, hrest]; rfl
      by_cases hb : Text.isBlank c = true
      · rw [segments, consChar_blank hb]
        split
        · rename_i hgap
          cases hs : segments kindOf rest with
          | nil => trivial
          | cons first others =>
            rw [hs] at hgap
            rw [Option.some.inj hgap]
            trivial
        · trivial
      · rw [segments_char (by simpa using hb)]
        by_cases hc : Separator c
        · exact Or.inl hc
        · refine Or.inr (ih fun literal' more' he hne => ?_)
          obtain ⟨rfl, rfl⟩ := List.cons.inj (hrest.symm.trans he)
          obtain ⟨d, hd, hsep⟩ := h _ _ hcons hne
          rcases List.mem_cons.mp hd with rfl | hd
          · exact absurd hsep hc
          · exact ⟨d, hd, hsep⟩

theorem parted_consChar {c : Char} {segs : List Segment} (h : Parted segs) :
    Parted (consChar c segs) := by
  by_cases hb : Text.isBlank c = true
  · rw [consChar_blank hb]
    split <;> exact h
  · rw [consChar_letter (by simpa using hb)]
    exact h

/-- Slots that are kept apart give operands that are kept apart. -/
theorem parted_segments {ps : List Piece} (h : Separated ps) : Parted (segments kindOf ps) := by
  induction ps with
  | nil => trivial
  | cons piece rest ih =>
    obtain ⟨literal, more, hrest⟩ := exists_literals rest
    cases piece with
    | char c =>
      apply parted_consChar
      apply ih
      rw [Separated, literals, hrest] at h
      rw [Separated, hrest]
      exact h
    | slot name =>
      rw [Separated, literals, hrest, List.tail_cons] at h
      refine ⟨guarded_segments fun literal' more' he hne => ?_, ih ?_⟩
      · obtain ⟨rfl, rfl⟩ := List.cons.inj (hrest.symm.trans he)
        apply h
        rw [List.dropLast_cons_of_ne_nil hne]
        exact List.mem_cons_self
      · intro other hother
        apply h
        rw [hrest, List.tail_cons] at hother
        cases more with
        | nil => cases hother
        | cons first more =>
          rw [List.dropLast_cons_of_ne_nil (List.cons_ne_nil _ _)]
          exact List.mem_cons_of_mem _ hother

end Format

/-! ## Spelling a format -/

open Format

/-- `Spells scope format text slots`: the text has the format, and `slots` are the names of its
slots in order, each with the operand that stands for it. -/
inductive Spells (scope : String → Option Definition) :
    (format text : List Char) → (slots : List (String × String)) → Prop where
  | done : Spells scope [] [] []
  /-- A letter stands for itself in either case; a tilde that no name follows is a letter too. -/
  | letter {c x : Char} {format text : List Char} {slots : List (String × String)}
      (blank : Text.isBlank c = false)
      (slotless : c = '~' → ∀ d ∈ format.head?, Text.isWord d = false)
      (same : Text.sameLetter c x = true) (rest : Spells scope format text slots) :
      Spells scope (c :: format) (x :: text) slots
  /-- A whole run of blanks stands for any run of blanks. -/
  | gap {run blanks format text : List Char} {slots : List (String × String)}
      (some_run : run ≠ []) (run_blank : ∀ c ∈ run, Text.isBlank c = true)
      (run_ends : ∀ c ∈ format.head?, Text.isBlank c = false)
      (some_blank : blanks ≠ []) (all_blank : ∀ c ∈ blanks, Text.isBlank c = true)
      (rest : Spells scope format text slots) :
      Spells scope (run ++ format) (blanks ++ text) slots
  /-- A tilde and a name stand for an operand of the variable of that name. -/
  | slot {name operand : String} {v : Variable} {format text : List Char}
      {slots : List (String × String)}
      (some_name : name.toList ≠ []) (name_word : ∀ c ∈ name.toList, Text.isWord c = true)
      (name_ends : ∀ c ∈ format.head?, Text.isWord c = false)
      (known : scope name = some (.known v))
      (admits : (Rule.operandKind v).Admits operand.toList)
      (rest : Spells scope format text slots) :
      Spells scope ('~' :: (name.toList ++ format)) (operand.toList ++ text)
        ((name, operand) :: slots)

section Spelling

variable {scope : String → Option Definition}

theorem kindAt_known {name : String} {v : Variable} (h : scope name = some (.known v)) :
    Rule.kindAt scope name = Rule.operandKind v := by
  rw [Rule.kindAt, h]

/-- A format spells the slots that it has. -/
theorem Spells.names {format text : List Char} {slots : List (String × String)}
    (h : Spells scope format text slots) : slotNames (pieces format) = slots.map Prod.fst := by
  induction h with
  | done => rw [pieces]; rfl
  | letter hb hs hx _ ih => rw [pieces_char hs, ← ih]; rfl
  | @gap run blanks format text slots _ hrun _ _ _ _ ih =>
    rw [pieces_blanks hrun, ← ih]
    unfold slotNames
    rw [List.filterMap_append, List.filterMap_map]
    simp
  | slot hne hname hends _ _ _ ih =>
    rw [pieces_slot hne hname hends, String.ofList_toList, List.map_cons, ← ih]
    rfl

/-- A spelled text is cut by the segments of the format; a line break may follow it. -/
theorem Spells.fits {format text : List Char} {slots : List (String × String)}
    (h : Spells scope format text slots) {ending : List Char} (he : ending = [] ∨ ending = ['\n']) :
    Fits (segments (Rule.kindAt scope) (pieces format)) (text ++ ending)
      (slots.map (·.2.toList)) := by
  induction h with
  | done => rw [pieces]; exact ⟨he, rfl⟩
  | letter hb hs hx _ ih =>
    rw [pieces_char hs, segments_char hb]
    exact ⟨_, _, rfl, hx, ih⟩
  | gap hne hrun hends hbne hblank _ ih =>
    rw [pieces_blanks hrun, segments_blanks hne hrun (segments_head_ne_gap hends),
      List.append_assoc]
    exact ⟨_, _, rfl, ⟨hbne, hblank⟩, ih⟩
  | slot hne hname hends hv ho _ ih =>
    rw [pieces_slot hne hname hends, String.ofList_toList, segments, kindAt_known hv,
      List.append_assoc]
    exact ⟨_, _, _, rfl, ho, rfl, ih⟩

/-- A text is a front of characters of one kind, and then nothing more or another character. -/
theorem exists_front (p : Char → Bool) (s : List Char) :
    ∃ front rest, s = front ++ rest ∧ (∀ c ∈ front, p c = true) ∧
      ∀ c ∈ rest.head?, p c = false := by
  refine ⟨s.takeWhile p, s.dropWhile p, List.takeWhile_append_dropWhile.symm,
    fun c => List.mem_takeWhile_imp, fun c hc => ?_⟩
  have hhead := List.head?_dropWhile_not p s
  rw [hc] at hhead
  exact hhead

/-- A text that the segments of a format cut is spelled by it, a line break at its end left out. -/
theorem exists_spells {format s : List Char} {operands : List (List Char)}
    (hscope : ∀ name ∈ slotNames (pieces format), ∃ v, scope name = some (.known v))
    (h : Fits (segments (Rule.kindAt scope) (pieces format)) s operands) :
    ∃ text ending slots, s = text ++ ending ∧ (ending = [] ∨ ending = ['\n']) ∧
      Spells scope format text slots ∧ operands = slots.map (·.2.toList) := by
  -- By the length of the format, since a slot and a run of blanks are taken off at once.
  induction hn : format.length using Nat.strongRecOn generalizing format s operands with
  | ind n ih =>
  subst hn
  cases format with
  | nil =>
    rw [pieces] at h
    exact ⟨[], s, [], rfl, h.1, .done, h.2⟩
  | cons c rest =>
    by_cases hb : Text.isBlank c = true
    · obtain ⟨run, format, hrest, hrun, hends⟩ := exists_front Text.isBlank (c :: rest)
      have hne : run ≠ [] := by
        rintro rfl
        rw [List.nil_append] at hrest
        rw [← hrest] at hends
        rw [hends c rfl] at hb
        cases hb
      have hlen : format.length < (c :: rest).length := by
        rw [hrest, List.length_append]
        have := List.length_pos_iff.mpr hne
        omega
      rw [hrest] at hscope h ⊢
      rw [pieces_blanks hrun] at hscope h
      rw [segments_blanks hne hrun (segments_head_ne_gap hends)] at h
      obtain ⟨blanks, more, rfl, ⟨hbne, hblank⟩, hmore⟩ := h
      obtain ⟨text, ending, slots, rfl, hending, hspell, hops⟩ := ih _ hlen
        (fun name hname => hscope name (by
          unfold slotNames at hname ⊢
          rw [List.filterMap_append]
          exact List.mem_append_right _ hname)) hmore rfl
      exact ⟨blanks ++ text, ending, slots, (List.append_assoc _ _ _).symm, hending,
        .gap hne hrun hends hbne hblank hspell, hops⟩
    · have hb : Text.isBlank c = false := by simpa using hb
      obtain ⟨word, format, rfl, hword, hends⟩ := exists_front Text.isWord rest
      by_cases hslot : c = '~' ∧ word ≠ []
      · obtain ⟨rfl, hne⟩ := hslot
        rw [pieces_slot hne hword hends] at hscope h
        obtain ⟨v, hv⟩ := hscope (String.ofList word) List.mem_cons_self
        rw [segments, kindAt_known hv] at h
        obtain ⟨w, more, others, rfl, hw, rfl, hmore⟩ := h
        obtain ⟨text, ending, slots, rfl, hending, hspell, rfl⟩ := ih format.length
          (by simp only [List.length_cons, List.length_append]; omega)
          (fun name hname => hscope name (List.mem_cons_of_mem _ hname)) hmore rfl
        refine ⟨w ++ text, ending, (String.ofList word, String.ofList w) :: slots,
          (List.append_assoc _ _ _).symm, hending, ?_, by rw [List.map_cons, String.toList_ofList]⟩
        have hstep : Spells scope ('~' :: ((String.ofList word).toList ++ format))
            ((String.ofList w).toList ++ text) ((String.ofList word, String.ofList w) :: slots) :=
          .slot (by rwa [String.toList_ofList]) (by rwa [String.toList_ofList]) hends hv
            (by rwa [String.toList_ofList]) hspell
        rwa [String.toList_ofList, String.toList_ofList] at hstep
      · have hchar : c = '~' → ∀ d ∈ (word ++ format).head?, Text.isWord d = false := by
          intro hc
          have hnil : word = [] := not_not.mp fun hne => hslot ⟨hc, hne⟩
          rw [hnil]
          exact hends
        rw [pieces_char hchar] at hscope h
        rw [segments_char hb] at h
        obtain ⟨x, more, rfl, hx, hmore⟩ := h
        obtain ⟨text, ending, slots, rfl, hending, hspell, hops⟩ := ih (word ++ format).length
          (Nat.lt_succ_self _) (fun name hname => hscope name hname) hmore rfl
        exact ⟨x :: text, ending, slots, rfl, hending, .letter hb hchar hx hspell, hops⟩

/-! ## Rules -/

/-- The slots of a rule pass if each of them names a variable. -/
theorem checkSlots_eq_ok {names : List String} :
    Rule.checkSlots scope names = .ok () ↔ ∀ name ∈ names, ∃ v, scope name = some (.known v) := by
  induction names with
  | nil => exact ⟨fun _ _ hname => (nomatch hname), fun _ => rfl⟩
  | cons first rest ih =>
    rw [List.forall_mem_cons]
    unfold Rule.checkSlots
    split
    · rename_i hnone
      simp [hnone]
    · rename_i hnull
      simp [hnull]
    · rename_i hother
      simp [hother]
    · rename_i v hv
      rw [ih]
      exact ⟨fun hrest => ⟨⟨v, hv⟩, hrest⟩, And.right⟩

/-- Compiling a rule, part by part. -/
theorem compile_iff {source : RuleSource} {rule : Rule} :
    Rule.compile scope source = .ok rule ↔
      (∀ name ∈ slotNames (pieces source.format.toList), ∃ v, scope name = some (.known v)) ∧
      ∃ layout, source.bits.mapM
          (Rule.entryOf source.format (slotNames (pieces source.format.toList))) = .ok layout ∧
        rule = ⟨source, segments (Rule.kindAt scope) (pieces source.format.toList),
          slotNames (pieces source.format.toList), layout⟩ := by
  rw [← checkSlots_eq_ok]
  unfold Rule.compile
  simp only [bind, Except.bind]
  split
  · rename_i hslots
    simp [hslots]
  · rename_i hslots
    split
    · rename_i hlayout
      simp [hlayout]
    · rename_i layout hlayout
      simp only [hslots, hlayout, true_and, Except.ok.injEq, exists_eq_left']
      exact eq_comm

/-- What a rule is made of. -/
theorem compile_eq_ok {source : RuleSource} {rule : Rule}
    (h : Rule.compile scope source = .ok rule) :
    (∀ name ∈ slotNames (pieces source.format.toList), ∃ v, scope name = some (.known v)) ∧
      rule.names = slotNames (pieces source.format.toList) ∧
      rule.segments = segments (Rule.kindAt scope) (pieces source.format.toList) := by
  obtain ⟨hscope, layout, -, rfl⟩ := compile_iff.1 h
  exact ⟨hscope, rfl, rfl⟩

/-- A line has the format of a rule: it is a text that the format spells, with or without a line
break at its end.  The slots are those of the spelling. -/
def LineSpells (scope : String → Option Definition) (format line : String)
    (slots : List (String × String)) : Prop :=
  Spells scope format.toList line.toList slots ∨
    ∃ text : String, line = text ++ "\n" ∧ Spells scope format.toList text.toList slots

theorem LineSpells.fits {format line : String} {slots : List (String × String)}
    (h : LineSpells scope format line slots) :
    Fits (segments (Rule.kindAt scope) (pieces format.toList)) line.toList
      (slots.map (·.2.toList)) := by
  rcases h with h | ⟨text, rfl, h⟩
  · have := h.fits (Or.inl rfl)
    rwa [List.append_nil] at this
  · rw [String.toList_append]
    exact h.fits (Or.inr rfl)

theorem LineSpells.names {format line : String} {slots : List (String × String)}
    (h : LineSpells scope format line slots) :
    slotNames (pieces format.toList) = slots.map Prod.fst := by
  rcases h with h | ⟨_, _, h⟩ <;> exact h.names

theorem exists_lineSpells {format line : String} {operands : List (List Char)}
    (hscope : ∀ name ∈ slotNames (pieces format.toList), ∃ v, scope name = some (.known v))
    (h : Fits (segments (Rule.kindAt scope) (pieces format.toList)) line.toList operands) :
    ∃ slots, LineSpells scope format line slots ∧ operands = slots.map (·.2.toList) := by
  obtain ⟨text, ending, slots, hline, hending, hspell, hops⟩ := exists_spells hscope h
  refine ⟨slots, ?_, hops⟩
  rcases hending with rfl | rfl
  · rw [List.append_nil] at hline
    exact Or.inl (hline ▸ hspell)
  · refine Or.inr ⟨String.ofList text, ?_, by rwa [String.toList_ofList]⟩
    rw [← String.toList_inj, hline, String.toList_append, String.toList_ofList]
    rfl

/-- **A rule matches the language of its format.**  It matches a line exactly if the format spells
it; what it captures are the operands of such a spelling, one for each slot in order; and where
every two slots that follow each other are kept apart, a line has only one spelling. -/
theorem captures_iff_spells {source : RuleSource} {rule : Rule}
    (h : Rule.compile scope source = .ok rule) (line : String) :
    ((rule.captures line).isSome = true ↔ ∃ slots, LineSpells scope source.format line slots) ∧
      (∀ operands, rule.captures line = some operands →
        ∃ slots, LineSpells scope source.format line slots ∧ slots.map Prod.fst = rule.names ∧
          slots.map Prod.snd = operands) ∧
      (Separated (pieces source.format.toList) → ∀ slots others,
        LineSpells scope source.format line slots → LineSpells scope source.format line others →
          slots = others) := by
  obtain ⟨hscope, hnames, hsegments⟩ := compile_eq_ok h
  have captured : ∀ operands, rule.captures line = some operands →
      ∃ slots, LineSpells scope source.format line slots ∧ slots.map Prod.fst = rule.names ∧
        slots.map Prod.snd = operands := by
    intro operands hops
    rw [Rule.captures, hsegments, Option.map_eq_some_iff] at hops
    obtain ⟨parts, hparts, rfl⟩ := hops
    obtain ⟨slots, hspell, rfl⟩ := exists_lineSpells hscope (fits_of_captures hparts)
    refine ⟨slots, hspell, by rw [hnames, hspell.names], ?_⟩
    rw [List.map_map]
    exact List.map_congr_left fun slot _ => by simp
  refine ⟨⟨fun hsome => ?_, fun ⟨slots, hspell⟩ => ?_⟩, captured, fun hsep slots others hs ho => ?_⟩
  · obtain ⟨operands, hops⟩ := Option.isSome_iff_exists.mp hsome
    obtain ⟨slots, hspell, -, -⟩ := captured operands hops
    exact ⟨slots, hspell⟩
  · rw [Rule.captures, Option.isSome_map, hsegments]
    exact captures_of_fits hspell.fits
  · have hops : slots.map (·.2.toList) = others.map (·.2.toList) :=
      fits_unique (tidy_segments _) (parted_segments hsep) hs.fits ho.fits
    have hfst : slots.map Prod.fst = others.map Prod.fst := by rw [← hs.names, ho.names]
    have hsnd : slots.map Prod.snd = others.map Prod.snd := by
      have := congrArg (List.map String.ofList) hops
      simpa [List.map_map, Function.comp_def] using this
    exact (List.zip_of_prod hfst hsnd).trans (List.zip_of_prod rfl rfl).symm

end Spelling

/-- Two names: a register and a number. -/
def registerAndNumber (name : String) : Option Definition :=
  if name = "reg" then some (.known ⟨"reg", 2, by decide, .tokens ["a", "b", "c", "d"]⟩)
  else if name = "imm" then some (.known ⟨"imm", 8, by decide, .number false 0⟩)
  else none

/-- A line in other letters and with other blanks than its format, and the only way to spell it. -/
theorem captures_iff_spells_load :
    ∃ rule, Rule.compile registerAndNumber ⟨"ld ~reg , ~imm", []⟩ = .ok rule ∧
      rule.captures "LD\tb  ,\t $1F\n" = some ["b", "$1F"] ∧
      ∀ slots, LineSpells registerAndNumber "ld ~reg , ~imm" "LD\tb  ,\t $1F\n" slots ↔
        slots = [("reg", "b"), ("imm", "$1F")] := by
  have hok : (Rule.compile registerAndNumber ⟨"ld ~reg , ~imm", []⟩).isOk = true := by
    decide +kernel
  have hcap : (Rule.compile registerAndNumber ⟨"ld ~reg , ~imm", []⟩).toOption.map
      (fun rule => (rule.captures "LD\tb  ,\t $1F\n", rule.names)) =
        some (some ["b", "$1F"], ["reg", "imm"]) := by decide +kernel
  have hlit : literals (pieces "ld ~reg , ~imm".toList) =
      ["ld ".toList, " , ".toList, []] := by decide +kernel
  rcases h : Rule.compile registerAndNumber ⟨"ld ~reg , ~imm", []⟩ with error | rule
  · rw [h] at hok
    cases hok
  · rw [h] at hcap
    obtain ⟨hcap, hnames⟩ := Prod.mk.inj (Option.some.inj hcap)
    obtain ⟨-, hslots, hunique⟩ := captures_iff_spells h "LD\tb  ,\t $1F\n"
    have hsep : Separated (pieces "ld ~reg , ~imm".toList) := by
      intro literal hmem
      rw [hlit] at hmem
      obtain rfl : literal = " , ".toList := by simpa using hmem
      exact ⟨' ', by decide, separator_of_isBlank rfl⟩
    obtain ⟨slots, hspell, hfst, hsnd⟩ := hslots _ hcap
    rw [hnames] at hfst
    have hslots : slots = [("reg", "b"), ("imm", "$1F")] := List.zip_of_prod hfst hsnd
    refine ⟨rule, rfl, hcap, fun others => ⟨fun ho => ?_, fun ho => ?_⟩⟩
    · rw [← hslots]
      exact hunique hsep _ _ ho hspell
    · rw [ho, ← hslots]
      exact hspell

end Retarget
