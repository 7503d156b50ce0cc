import Mathlib
import Retarget.Text.Blank
import Retarget.Text.Case
import Retarget.Text.Word

/-!
# Letters up to case

What the tables of blanks, word characters and lower-case letters have to do with each other.  Being
the same letter up to case is an equivalence (`sameLetter_symm`, `sameLetter_trans`), no blank is a
word character (`isWord_of_isBlank`), and no letter of a format can stand for a blank
(`isBlank_of_sameLetter`).  Lower case is in lower case (`lowerChar_lowerChar`), and makes no word
character of another one (`isWord_lowerChar`).  All that is checked entry by entry of the tables
stands in `ascii_letter`, `highBlank_alone`, `lowerRun_leads` and `variantGroup_alone`.
-/

namespace Retarget.Text

/-! ## Blanks and ASCII characters -/

/-- The blanks above ASCII. -/
def highBlanks : List Nat :=
  [0x85, 0xa0, 0x1680, 0x2000, 0x2001, 0x2002, 0x2003, 0x2004, 0x2005, 0x2006, 0x2007, 0x2008,
    0x2009, 0x200a, 0x2028, 0x2029, 0x202f, 0x205f, 0x3000]

/-- A blank is an ASCII character or one of the few above. -/
theorem mem_highBlanks {c : Char} (h : isBlank c = true) (hc : ¬ c.toNat < 128) :
    c.toNat ∈ highBlanks := by
  simp only [isBlank, decide_eq_true_eq] at h
  simp only [highBlanks, List.mem_cons, List.not_mem_nil, or_false]
  omega

/-- What holds of the ASCII characters one by one holds of every character below 128. -/
theorem ascii_induction {P : Char → Prop} (h : ∀ n < 128, P (Char.ofNat n)) {c : Char}
    (hc : c.toNat < 128) : P c :=
  Char.ofNat_toNat c ▸ h c.toNat hc

/-! ## The tables entry by entry -/

/-- Whether the lower case of a run of capital letters has none of another run: the two are apart,
or each takes every second letter of one stretch. -/
def leadsPast (run other : Nat × Nat × Nat × Nat) : Bool :=
  Nat.blt (run.2.2.2 + (run.2.1 - run.1)) other.1 || Nat.blt other.2.1 run.2.2.2 ||
    (Nat.beq run.1 run.2.1 || Nat.beq run.2.2.1 2) &&
      (Nat.beq other.1 other.2.1 || Nat.beq other.2.2.1 2) &&
      Nat.beq ((run.2.2.2 + other.1) % 2) 1

theorem ne_of_leadsPast {run other : Nat × Nat × Nat × Nat} (h : leadsPast run other = true)
    {k j : Nat} (hk : run.1 + k ≤ run.2.1) (hkstep : k % run.2.2.1 = 0)
    (hj : other.1 + j ≤ other.2.1) (hjstep : j % other.2.2.1 = 0) :
    run.2.2.2 + k ≠ other.1 + j := by
  obtain ⟨first, last, step, target⟩ := run
  obtain ⟨first', last', step', target'⟩ := other
  simp only [leadsPast, Bool.or_eq_true, Bool.and_eq_true, Nat.blt_eq, Nat.beq_eq] at *
  rcases h with (h | h) | ⟨⟨h, h'⟩, hparity⟩
  · omega
  · omega
  · have hk' : k % 2 = 0 := by
      rcases h with h | rfl
      · omega
      · exact hkstep
    have hj' : j % 2 = 0 := by
      rcases h' with h' | rfl
      · omega
      · exact hjstep
    omega

/-- Whether a run leads to code points of characters, which are above ASCII but for single letters
in lower case. -/
def leadsToLetters (run : Nat × Nat × Nat × Nat) : Bool :=
  (Nat.blt (run.2.2.2 + (run.2.1 - run.1)) 0xd800 ||
      Nat.blt 0xdfff run.2.2.2 && Nat.blt (run.2.2.2 + (run.2.1 - run.1)) 0x110000) &&
    (Nat.blt 127 run.2.2.2 ||
      Nat.beq run.1 run.2.1 && (Char.ofNat run.2.2.2).toLower == Char.ofNat run.2.2.2)

theorem toNat_of_leadsToLetters {run : Nat × Nat × Nat × Nat} (h : leadsToLetters run = true)
    {k : Nat} (hk : run.1 + k ≤ run.2.1) :
    (Char.ofNat (run.2.2.2 + k)).toNat = run.2.2.2 + k := by
  obtain ⟨first, last, step, target⟩ := run
  simp only [leadsToLetters, Bool.or_eq_true, Bool.and_eq_true, Nat.blt_eq] at *
  have hvalid : (target + k).isValidChar := by
    unfold Nat.isValidChar
    omega
  rw [Char.ofNat, dif_pos hvalid]
  exact Char.toNat_ofNatAux _

/-- Whether a run leads to no blank. -/
def missesBlanks (run : Nat × Nat × Nat × Nat) : Bool :=
  (Nat.blt 127 run.2.2.2 || !isBlank (Char.ofNat run.2.2.2)) &&
    highBlanks.all fun n =>
      Nat.blt n run.2.2.2 || Nat.blt (run.2.2.2 + (run.2.1 - run.1)) n

/-- No run of capital letters leads to a blank. -/
theorem not_isBlank_of_missesBlanks {run : Nat × Nat × Nat × Nat} (h : missesBlanks run = true)
    (hletters : leadsToLetters run = true) {k : Nat} (hk : run.1 + k ≤ run.2.1) :
    isBlank (Char.ofNat (run.2.2.2 + k)) = false := by
  have htarget := toNat_of_leadsToLetters hletters hk
  simp only [missesBlanks, Bool.and_eq_true, Bool.or_eq_true, Nat.blt_eq, Bool.not_eq_true',
    List.all_eq_true] at h
  obtain ⟨hlow, hhigh⟩ := h
  rw [Bool.eq_false_iff]
  intro hblank
  by_cases hc : (Char.ofNat (run.2.2.2 + k)).toNat < 128
  · -- A run that leads to ASCII is one letter.
    simp only [leadsToLetters, Bool.and_eq_true, Bool.or_eq_true, Nat.blt_eq,
      Nat.beq_eq] at hletters
    obtain rfl : k = 0 := by omega
    rw [Nat.add_zero, hlow.resolve_left (by omega)] at hblank
    cases hblank
  · have := hhigh _ (mem_highBlanks hblank hc)
    omega

/-- Whether a stretch of numbers lies inside of boundaries. -/
def within : List Nat → Nat → Nat → Bool
  | lo :: hi :: rest, first, last =>
    Nat.ble lo first && bif Nat.blt first hi then Nat.blt last hi else within rest first last
  | _, _, _ => false

/-- Whether a stretch of numbers lies outside of boundaries. -/
def outside : List Nat → Nat → Nat → Bool
  | lo :: hi :: rest, first, last =>
    bif Nat.blt first hi then Nat.blt last lo else outside rest first last
  | _, _, _ => false

theorem inBounds_of_within {bounds : List Nat} {first last n : Nat}
    (h : within bounds first last = true) (hfirst : first ≤ n) (hlast : n ≤ last) :
    inBounds bounds n = true := by
  fun_induction within bounds first last with
  | case1 lo hi rest first last ih =>
    simp only [Bool.and_eq_true, Nat.ble_eq, Bool.cond_eq_ite, Nat.blt_eq] at h
    obtain ⟨hlo, h⟩ := h
    rw [inBounds, if_neg (by omega)]
    split at h
    · rw [Nat.blt_eq] at h
      rw [if_pos (by omega)]
    · rw [if_neg (by omega)]
      exact ih h hfirst hlast
  | case2 => cases h

theorem inBounds_of_outside {bounds : List Nat} {first last n : Nat}
    (h : outside bounds first last = true) (hfirst : first ≤ n) (hlast : n ≤ last) :
    inBounds bounds n = false := by
  fun_induction outside bounds first last with
  | case1 lo hi rest first last hhi =>
    rw [Nat.blt_eq] at h
    rw [inBounds, if_pos (by omega)]
  | case2 lo hi rest first last hhi ih =>
    rw [Bool.eq_false_iff, ne_eq, Nat.blt_eq] at hhi
    rw [inBounds, if_neg (show ¬ n < hi by omega), ih h hfirst hlast, ite_self]
  | case3 => cases h

/-- Whether a run of capital letters has word characters only, or leads to none. -/
def keepsWords (run : Nat × Nat × Nat × Nat) : Bool :=
  within wordBounds run.1 run.2.1 ||
    Nat.blt 127 run.2.2.2 && outside wordBounds run.2.2.2 (run.2.2.2 + (run.2.1 - run.1)) ||
    (List.range (run.2.1 - run.1 + 1)).all fun k =>
      !Nat.beq (k % run.2.2.1) 0 || within wordBounds (run.1 + k) (run.1 + k)

/-- The ASCII characters one by one. -/
theorem ascii_letter {c : Char} (hc : c.toNat < 128) :
    (isBlank c = true → isWord c = false ∧ lowerChar c = c) ∧
      (isBlank (lowerChar c) = true → lowerChar c = c) ∧
      lowerChar (lowerChar c) = lowerChar c ∧
      (isWord c = false → isWord (lowerChar c) = false) :=
  ascii_induction (P := fun c => (isBlank c = true → isWord c = false ∧ lowerChar c = c) ∧
    (isBlank (lowerChar c) = true → lowerChar c = c) ∧ lowerChar (lowerChar c) = lowerChar c ∧
    (isWord c = false → isWord (lowerChar c) = false)) (by decide +kernel) hc

/-- The blanks above ASCII one by one. -/
theorem highBlank_alone : ∀ n ∈ highBlanks,
    inBounds wordBounds n = false ∧ lowerIn lowerRuns n = n := by
  decide +kernel

/-- The runs of capital letters one by one. -/
theorem lowerRun_leads {run : Nat × Nat × Nat × Nat} (h : run ∈ lowerRuns) :
    leadsToLetters run = true ∧ missesBlanks run = true ∧ keepsWords run = true ∧
      ∀ other ∈ lowerRuns, leadsPast run other = true := by
  have hall : (lowerRuns.all fun run => leadsToLetters run && missesBlanks run &&
      keepsWords run && lowerRuns.all (leadsPast run)) = true := by
    decide +kernel
  have hrun := List.all_eq_true.1 hall run h
  simp only [Bool.and_eq_true, List.all_eq_true] at hrun
  obtain ⟨⟨⟨hletters, hblanks⟩, hwords⟩, hpast⟩ := hrun
  exact ⟨hletters, hblanks, hwords, hpast⟩

/-! ## Blanks are no word characters -/

/-- No blank is a word character. -/
theorem isWord_of_isBlank {c : Char} (h : isBlank c = true) : isWord c = false := by
  by_cases hc : c.toNat < 128
  · exact ((ascii_letter hc).1 h).1
  · rw [isWord, if_neg hc]
    exact (highBlank_alone _ (mem_highBlanks h hc)).1

/-- A word character is not blank. -/
theorem isBlank_of_isWord {c : Char} (h : isWord c = true) : isBlank c = false := by
  rw [Bool.eq_false_iff]
  intro hb
  rw [isWord_of_isBlank hb] at h
  cases h

/-! ## Lower case of single characters -/

/-- A code point is its own lower case, or is one of a run of capital letters. -/
theorem lowerIn_eq (runs : List (Nat × Nat × Nat × Nat)) (n : Nat) :
    lowerIn runs n = n ∨
      ∃ run ∈ runs, ∃ k, run.1 + k ≤ run.2.1 ∧ k % run.2.2.1 = 0 ∧ n = run.1 + k ∧
        lowerIn runs n = run.2.2.2 + k := by
  induction runs with
  | nil => exact Or.inl rfl
  | cons run rest ih =>
    obtain ⟨first, last, step, target⟩ := run
    rw [lowerIn]
    split
    · exact Or.inl rfl
    · split
      · rename_i hn hl
        rw [Bool.and_eq_true, decide_eq_true_eq, beq_iff_eq] at hl
        have hsplit : first + (n - first) = n := Nat.add_sub_of_le (Nat.le_of_not_lt hn)
        exact Or.inr ⟨_, List.mem_cons_self, n - first, hsplit.trans_le hl.1, hl.2, hsplit.symm,
          rfl⟩
      · rcases ih with h | ⟨run, hmem, hrun⟩
        · exact Or.inl h
        · exact Or.inr ⟨run, List.mem_cons_of_mem _ hmem, hrun⟩

/-- A character whose lower case is blank is that blank. -/
theorem eq_of_isBlank_lowerChar {c : Char} (h : isBlank (lowerChar c) = true) :
    lowerChar c = c := by
  by_cases hc : c.toNat < 128
  · exact (ascii_letter hc).2.1 h
  · rw [lowerChar, if_neg hc] at h ⊢
    rcases lowerIn_eq lowerRuns c.toNat with he | ⟨run, hmem, k, hk, -, -, he⟩
    · rw [he, Char.ofNat_toNat]
    · obtain ⟨hletters, hblanks, -, -⟩ := lowerRun_leads hmem
      rw [he, not_isBlank_of_missesBlanks hblanks hletters hk] at h
      cases h

/-- A blank is its own lower case. -/
theorem lowerChar_of_isBlank {c : Char} (h : isBlank c = true) : lowerChar c = c := by
  by_cases hc : c.toNat < 128
  · exact ((ascii_letter hc).1 h).2
  · rw [lowerChar, if_neg hc, (highBlank_alone _ (mem_highBlanks h hc)).2, Char.ofNat_toNat]

/-! ## Lower case of lower case -/

/-- Lower case is in lower case. -/
theorem lowerChar_lowerChar (c : Char) : lowerChar (lowerChar c) = lowerChar c := by
  by_cases hc : c.toNat < 128
  · exact (ascii_letter hc).2.2.1
  · rw [lowerChar.eq_1 c, if_neg hc]
    rcases lowerIn_eq lowerRuns c.toNat with he | ⟨run, hmem, k, hk, hstep, -, he⟩
    · rw [he, Char.ofNat_toNat, lowerChar, if_neg hc, he, Char.ofNat_toNat]
    · obtain ⟨hletters, -, -, hpast⟩ := lowerRun_leads hmem
      rw [he, lowerChar, toNat_of_leadsToLetters hletters hk]
      split
      · -- A run that leads to ASCII is one letter.
        simp only [leadsToLetters, Bool.and_eq_true, Bool.or_eq_true, Nat.blt_eq, Nat.beq_eq,
          beq_iff_eq] at hletters
        rcases hletters.2 with hlow | ⟨hone, hlower⟩
        · omega
        · obtain rfl : k = 0 := by omega
          exact hlower
      · rcases lowerIn_eq lowerRuns (run.2.2.2 + k) with hown | ⟨other, hother, j, hj, hodd, hj', -⟩
        · rw [hown]
        · exact absurd hj' (ne_of_leadsPast (hpast other hother) hk hstep hj hodd)

/-! ## Lower case of word characters -/

theorem isWord_eq_inBounds {c : Char} (hc : ¬ c.toNat < 128) :
    isWord c = inBounds wordBounds c.toNat :=
  if_neg hc

/-- The lower case of what is no word character is none. -/
theorem isWord_lowerChar {c : Char} (h : isWord c = false) : isWord (lowerChar c) = false := by
  by_cases hc : c.toNat < 128
  · exact (ascii_letter hc).2.2.2 h
  · rw [isWord_eq_inBounds hc] at h
    have hlower : lowerChar c = Char.ofNat (lowerIn lowerRuns c.toNat) := if_neg hc
    rcases lowerIn_eq lowerRuns c.toNat with he | ⟨run, hmem, k, hk, hstep, hsource, he⟩
    · rw [hlower, he, Char.ofNat_toNat, isWord_eq_inBounds hc, h]
    · obtain ⟨hletters, -, hrun, -⟩ := lowerRun_leads hmem
      rw [hsource] at h
      simp only [keepsWords, Bool.or_eq_true, Bool.and_eq_true, Nat.blt_eq] at hrun
      rcases hrun with (hin | ⟨hhigh, hout⟩) | hsingle
      · rw [inBounds_of_within hin (by omega) hk] at h
        cases h
      · have htarget := toNat_of_leadsToLetters hletters hk
        rw [hlower, he, isWord_eq_inBounds (by omega), htarget]
        exact inBounds_of_outside hout (by omega) (by omega)
      · have hk' := List.all_eq_true.1 hsingle k (List.mem_range.2 (by omega))
        rw [Bool.or_eq_true, hstep] at hk'
        rw [inBounds_of_within (hk'.resolve_left (by decide)) (Nat.le_refl _) (Nat.le_refl _)] at h
        cases h

/-! ## Variants -/

/-- The groups of variants one by one: no blank is in a group, and none is in two of them. -/
theorem variantGroup_alone : ∀ g ∈ variantGroups, (∀ n ∈ g, isBlank (Char.ofNat n) = false) ∧
    ∀ g' ∈ variantGroups, (∃ x ∈ g, x ∈ g') → g = g' := by
  decide +kernel

theorem isVariant_iff {a b : Char} :
    isVariant a b = true ↔ ∃ group ∈ variantGroups, a.toNat ∈ group ∧ b.toNat ∈ group := by
  simp only [isVariant, List.any_eq_true, Bool.and_eq_true, List.contains_iff_mem]

theorem isVariant_symm {a b : Char} (h : isVariant a b = true) : isVariant b a = true := by
  obtain ⟨group, hg, ha, hb⟩ := isVariant_iff.mp h
  exact isVariant_iff.mpr ⟨group, hg, hb, ha⟩

/-- The groups of variants are disjoint, so variants of variants are variants. -/
theorem isVariant_trans {a b c : Char} (hab : isVariant a b = true) (hbc : isVariant b c = true) :
    isVariant a c = true := by
  obtain ⟨g, hg, ha, hb⟩ := isVariant_iff.mp hab
  obtain ⟨g', hg', hb', hc⟩ := isVariant_iff.mp hbc
  obtain rfl := (variantGroup_alone g hg).2 g' hg' ⟨b.toNat, hb, hb'⟩
  exact isVariant_iff.mpr ⟨g, hg, ha, hc⟩

/-- No variant is blank. -/
theorem not_isBlank_of_isVariant {a b : Char} (h : isVariant a b = true) : isBlank b = false := by
  obtain ⟨g, hg, -, hb⟩ := isVariant_iff.mp h
  have := (variantGroup_alone g hg).1 _ hb
  rwa [Char.ofNat_toNat] at this

/-! ## The same letter -/

theorem sameLetter_iff {a b : Char} :
    sameLetter a b = true ↔
      lowerChar a = lowerChar b ∨ isVariant (lowerChar a) (lowerChar b) = true := by
  rw [sameLetter, Bool.or_eq_true, beq_iff_eq]

theorem sameLetter_symm {a b : Char} (h : sameLetter a b = true) : sameLetter b a = true := by
  rw [sameLetter_iff] at h ⊢
  rcases h with h | h
  · exact Or.inl h.symm
  · exact Or.inr (isVariant_symm h)

theorem sameLetter_trans {a b c : Char} (hab : sameLetter a b = true)
    (hbc : sameLetter b c = true) :
    sameLetter a c = true := by
  rw [sameLetter_iff] at hab hbc ⊢
  rcases hab with hab | hab
  · rwa [hab]
  · rcases hbc with hbc | hbc
    · exact Or.inr (hbc ▸ hab)
    · exact Or.inr (isVariant_trans hab hbc)

/-- **Only a blank is the same letter as a blank.** -/
theorem isBlank_of_sameLetter {a b : Char} (h : sameLetter a b = true) (hb : isBlank b = true) :
    isBlank a = true := by
  have hlow : lowerChar b = b := lowerChar_of_isBlank hb
  rw [sameLetter_iff, hlow] at h
  rcases h with h | h
  · have ha : lowerChar a = a := eq_of_isBlank_lowerChar (by rw [h]; exact hb)
    rw [← ha, h]
    exact hb
  · rw [not_isBlank_of_isVariant h] at hb
    cases hb

end Retarget.Text
