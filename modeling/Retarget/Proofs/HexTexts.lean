import Retarget.Proofs.Words

/-!
# Texts of words

Words are shown side by side in hexadecimal, each in a field that is at least as wide as words of
their width need.  Room is asked for three times: for one field, for all fields of that width, and
for the text that they make in the end.  A field may be longer than its width, never shorter, so the
text is no shorter than what was asked for before.  Where the width of a field can be counted, the
length of the text alone decides (`Hex.wordFields_bind_holdText`, `Image.render_eq`); where it
cannot, no word is shown (`Hex.wordFields_of_uncountable`).
-/

namespace Retarget

theorem exists_of_bind_eq_ok {α β : Type} {x : Except Fault α} {f : α → Except Fault β} {b : β}
    (h : x >>= f = .ok b) : ∃ a, x = .ok a ∧ f a = .ok b := by
  rcases x with fault | a
  · cases h
  · exact ⟨a, rfl, h⟩

/-! ## Lengths -/

/-- A number in a field takes the width of the field, or what it takes without one if that is
more. -/
theorem Literal.length_hexText (value : Int) (digits : Nat) :
    (hexText value digits).length = max digits (hexText value 0).length := by
  simp only [hexText]
  split <;> simp only [String.length_ofList, List.length_cons, List.length_append,
    List.length_replicate] <;> omega

/-- A field is not shorter than its width. -/
theorem Literal.le_length_hexText (value : Int) (digits : Nat) :
    digits ≤ (hexText value digits).length := by
  rw [length_hexText]
  exact Nat.le_max_left _ _

/-- Joined texts take their characters, and one for each gap between two. -/
theorem Text.length_intercalate {sep : String} (hsep : sep.length = 1) (texts : List String) :
    (sep.intercalate texts).length = (texts.map String.length).sum + (texts.length - 1) := by
  induction texts with
  | nil => simp
  | cons text rest ih =>
    cases rest with
    | nil => simp
    | cons next rest =>
      rw [String.intercalate_cons_cons, String.length_append, String.length_append, hsep, ih]
      simp only [List.map_cons, List.sum_cons, List.length_cons]
      omega

/-- Texts take together at least what each of them takes. -/
theorem Text.mul_le_sum_length {n : Nat} {texts : List String}
    (h : ∀ text ∈ texts, n ≤ text.length) :
    texts.length * n ≤ (texts.map String.length).sum := by
  have hsum := List.card_nsmul_le_sum (texts.map String.length) n (by simpa using h)
  rwa [List.length_map, smul_eq_mul] at hsum

/-! ## Fields -/

/-- What can be counted can be written in decimal. -/
theorem Radix.hasDecimal_of_lt {n : Nat} (h : n < Capacity.countBound) : hasDecimal n = true := by
  have hpow : ∀ k, 19 ≤ k → n < Nat.pow 10 k := fun k hk =>
    calc n < 10 ^ 19 := Nat.lt_trans h (by decide)
      _ ≤ 10 ^ k := Nat.pow_le_pow_right (by decide) hk
  rw [hasDecimal, decide_eq_true_eq, Int.natAbs_natCast]
  unfold decimalBound
  exact hpow decimalLimit (by decide)

namespace Hex

/-- Words of `width` bits in fields of the width that they need. -/
def texts (width : Int) (words : List Nat) : List String :=
  words.map fun (word : Nat) => Literal.hexText word (Literal.hexDigits width)

@[simp] theorem length_texts (width : Int) (words : List Nat) :
    (texts width words).length = words.length :=
  List.length_map ..

/-- No text of a word is shorter than the field of the word. -/
theorem le_length_of_mem_texts {width : Int} {words : List Nat} {text : String}
    (h : text ∈ texts width words) : Literal.hexDigits width ≤ text.length := by
  obtain ⟨word, -, rfl⟩ := List.mem_map.1 h
  exact Literal.le_length_hexText word _

/-- Words with a character between two take at least what is asked for. -/
theorem le_length_intercalate_texts {sep : String} (hsep : sep.length = 1) (width : Int)
    (words : List Nat) :
    words.length * (Literal.hexDigits width + 1) - 1 ≤
      (sep.intercalate (texts width words)).length := by
  have hsum : words.length * Literal.hexDigits width ≤
      ((texts width words).map String.length).sum := by
    rw [← length_texts width words]
    exact Text.mul_le_sum_length fun _ => le_length_of_mem_texts
  rw [Text.length_intercalate hsep, length_texts, Nat.mul_add, Nat.mul_one]
  omega

variable [Machine]

/-- Every text that there is room for can be counted. -/
theorem text_lt_countBound : Machine.text < Capacity.countBound := by
  have hdigits := Machine.digits_lt
  have htext := Machine.text_lt
  simp only [Capacity.digitsFor, Capacity.digitBits] at htext
  omega

/-- A field may be as wide as there is room for its text, and fails for that unless its width cannot
even be counted. -/
theorem fieldWidth_natCast {digits : Nat} (h : digits < Capacity.countBound) :
    fieldWidth digits = if digits ≤ Machine.text then .ok digits else .error (.excess .room) := by
  rw [fieldWidth, Radix.hasDecimal_of_lt h, Int.toNat_natCast, if_neg (by decide),
    if_neg (by omega), if_neg (Nat.not_le.2 h), Capacity.checkText]
  by_cases htext : digits ≤ Machine.text
  · rw [if_neg (Nat.not_lt.2 htext), if_pos htext]
    rfl
  · rw [if_pos (Nat.lt_of_not_le htext), if_neg htext]
    rfl

/-- A field whose width cannot be counted fails for that, or because the width cannot be written. -/
theorem fieldWidth_of_uncountable {digits : Nat} (h : Capacity.countBound ≤ digits) :
    fieldWidth digits = .error .fieldTooWide ∨ fieldWidth digits = .error .decimalTooLong := by
  rw [fieldWidth, Int.toNat_natCast]
  by_cases htext : Radix.hasDecimal digits = true
  · rw [htext, if_neg (by decide), if_neg (by omega), if_pos h]
    exact .inl rfl
  · rw [Bool.eq_false_of_not_eq_true htext, if_pos (by decide)]
    exact .inr rfl

/-- A field that there may be has the width that it was asked for. -/
theorem fieldWidth_eq_ok {digits : Int} {n : Nat} (h : fieldWidth digits = .ok n) :
    n = digits.toNat ∧ digits.toNat ≤ Machine.text := by
  rw [fieldWidth] at h
  repeat' split at h
  · cases h
  · cases h
  · cases h
  · obtain ⟨_, htext, hdigits⟩ := exists_of_bind_eq_ok h
    exact ⟨(Except.ok.inj hdigits).symm, Capacity.checkText_eq_ok.1 htext⟩

/-- What a field shows. -/
theorem field_eq_ok {value digits : Int} {text : String} (h : field value digits = .ok text) :
    text = Literal.hexText value digits.toNat := by
  obtain ⟨n, hwidth, hfield⟩ := exists_of_bind_eq_ok h
  obtain ⟨rfl, -⟩ := fieldWidth_eq_ok hwidth
  exact (Capacity.holdText_eq_ok.1 hfield).2

variable {width : Int} {words : List Nat}

/-- Words are shown in fields of the width that they need. -/
theorem wordFields_eq_ok {fields : List String} (h : wordFields width words = .ok fields) :
    fields = texts width words ∧ (words ≠ [] → Literal.hexDigits width ≤ Machine.text) := by
  rcases words with _ | ⟨word, rest⟩
  · cases h
    exact ⟨rfl, fun hne => absurd rfl hne⟩
  · rw [wordFields, List.isEmpty_cons, if_neg (by decide)] at h
    obtain ⟨digits, hdigits, h⟩ := exists_of_bind_eq_ok h
    obtain ⟨_, -, hfields⟩ := exists_of_bind_eq_ok h
    obtain ⟨rfl, htext⟩ := fieldWidth_eq_ok hdigits
    rw [Int.toNat_natCast] at htext hfields
    exact ⟨(Except.ok.inj hfields).symm, fun _ => htext⟩

/-- Words in fields whose width cannot be counted are not shown. -/
theorem wordFields_of_uncountable (h : Capacity.countBound ≤ Literal.hexDigits width)
    (hne : words ≠ []) :
    wordFields width words = .error .fieldTooWide ∨
      wordFields width words = .error .decimalTooLong := by
  rw [wordFields, if_neg (by simpa using hne)]
  refine (fieldWidth_of_uncountable h).imp ?_ ?_
  · intro herror
    rw [herror]
    rfl
  · intro herror
    rw [herror]
    rfl

/-- **The text of words is held if there is room for it.**  What is asked for before is no more than
the length of the text. -/
theorem wordFields_bind_holdText (h : Literal.hexDigits width < Capacity.countBound)
    (join : List String → String)
    (hjoin : words.length * (Literal.hexDigits width + 1) - 1 ≤ (join (texts width words)).length) :
    (wordFields width words >>= fun fields => Capacity.holdText (join fields)) =
      Capacity.holdText (join (texts width words)) := by
  rw [wordFields]
  rcases words with _ | ⟨word, rest⟩
  · rfl
  rw [List.isEmpty_cons, if_neg (by decide), fieldWidth_natCast h, Capacity.holdText_eq]
  have hfirst : Literal.hexDigits width ≤
      (word :: rest).length * (Literal.hexDigits width + 1) - 1 := by
    rw [List.length_cons, Nat.add_mul, Nat.one_mul]
    omega
  by_cases hfield : Literal.hexDigits width ≤ Machine.text
  · rw [if_pos hfield]
    change (Capacity.checkText _ >>= fun _ => Except.ok (texts width (word :: rest))) >>= _ = _
    by_cases hall : (word :: rest).length * (Literal.hexDigits width + 1) - 1 ≤ Machine.text
    · rw [Capacity.checkText_eq_ok.2 hall]
      exact Capacity.holdText_eq _
    · rw [Capacity.checkText, if_pos (Nat.lt_of_not_le hall), if_neg (by omega)]
      rfl
  · rw [if_neg hfield, if_neg (by omega)]
    rfl

end Hex

variable [Machine]

namespace Capacity

/-- The digits that words are shown with can be counted if the words can be held. -/
theorem hexDigits_lt_of_fieldBits {width : Int} {bits : Nat} (h : fieldBits width = .ok bits) :
    Literal.hexDigits width < countBound := by
  have hdigits : 1 + digitsFor width.toNat ≤ Machine.digits := by
    rw [fieldBits] at h
    split at h
    · cases h
    · rcases hcheck : checkDigits (1 + digitsFor width.toNat) with fault | u
      · rw [hcheck] at h
        cases h
      · exact checkDigits_eq_ok.1 hcheck
  have hroom := Machine.digits_lt
  simp only [Literal.hexDigits, digitsFor, digitBits] at hdigits ⊢
  omega

/-- Words can be held if there is room for the digits that they are shown with. -/
theorem fieldBits_of_hexDigits_le {width : Int} (hwidth : 0 ≤ width)
    (h : Literal.hexDigits width ≤ Machine.text) : fieldBits width = .ok width.toNat := by
  have hdigits : 1 + digitsFor width.toNat ≤ Machine.digits := by
    have htext := Machine.text_lt
    simp only [Literal.hexDigits, digitsFor, digitBits] at h htext ⊢
    omega
  rw [fieldBits, if_neg (Int.not_lt.2 hwidth), checkDigits_eq_ok.2 hdigits]
  rfl

end Capacity

/-! ## Words of an image -/

namespace Image

/-- The words of an image from an address on. -/
def wordsFrom (image : Image) (address : Int) (count : Nat) : List Nat :=
  (List.range count).map fun j => Words.get image.words (image.place address + j)

/-- The words of an image from an address on as text. -/
def textFrom (image : Image) (address : Int) (count : Nat) : String :=
  " ".intercalate (Hex.texts image.width (image.wordsFrom address count))

variable {image : Image} {address : Int}

/-- Words are rendered by way of their fields. -/
theorem render_eq_bind (horigin : image.origin ≤ address) (count : Int) :
    image.render address count =
      (Hex.wordFields image.width (image.wordsFrom address count.toNat) >>= fun fields =>
        Capacity.holdText (" ".intercalate fields)) := by
  rw [render]
  split
  · rename_i hcount
    rw [Int.toNat_of_nonpos hcount]
    rfl
  · rw [index_eq_ok.2 ⟨horigin, rfl⟩]
    rfl

/-- **The words from an address on are rendered if there is room for their text.** -/
theorem render_eq (horigin : image.origin ≤ address)
    (hdigits : Literal.hexDigits image.width < Capacity.countBound) (count : Int) :
    image.render address count = Capacity.holdText (image.textFrom address count.toNat) := by
  rw [render_eq_bind horigin]
  exact Hex.wordFields_bind_holdText hdigits (" ".intercalate ·)
    (Hex.le_length_intercalate_texts rfl _ _)

/-- What is rendered is the text of the words, which can be held if there are any. -/
theorem render_eq_ok {count : Int} {text : String} (hwidth : 0 ≤ image.width)
    (horigin : image.origin ≤ address) (h : image.render address count = .ok text) :
    text = image.textFrom address count.toNat ∧
      (0 < count → Capacity.fieldBits image.width = .ok image.width.toNat) := by
  rw [render_eq_bind horigin] at h
  rcases hfields : Hex.wordFields image.width (image.wordsFrom address count.toNat) with
    fault | fields
  · rw [hfields] at h
    cases h
  · rw [hfields] at h
    obtain ⟨rfl, hdigits⟩ := Hex.wordFields_eq_ok hfields
    refine ⟨(Capacity.holdText_eq_ok.1 h).2, fun hcount => ?_⟩
    refine Capacity.fieldBits_of_hexDigits_le hwidth (hdigits ?_)
    intro hnone
    have hlength := congrArg List.length hnone
    rw [wordsFrom, List.length_map, List.length_range, List.length_nil] at hlength
    omega

end Image

end Retarget
