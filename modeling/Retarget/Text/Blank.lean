/-!
# Blanks

The characters that separate words, and the three ways of cutting a text at them: trimming its ends,
taking its words, and taking its fields with the empty ones at the ends kept.
-/

namespace Retarget.Text

/-! ## The blank characters -/

/-- A character that separates words. -/
def isBlank (c : Char) : Bool :=
  let n := c.toNat
  decide ((9 ≤ n ∧ n ≤ 13) ∨ (28 ≤ n ∧ n ≤ 32) ∨ n = 0x85 ∨ n = 0xa0 ∨ n = 0x1680 ∨
    (0x2000 ≤ n ∧ n ≤ 0x200a) ∨ n = 0x2028 ∨ n = 0x2029 ∨ n = 0x202f ∨ n = 0x205f ∨ n = 0x3000)

/-! ## Trimming -/

/-- The characters without the blanks in front. -/
def trimStart (s : List Char) : List Char :=
  s.dropWhile isBlank

/-- The characters without the blanks at the end. -/
def trimEnd (s : List Char) : List Char :=
  (s.reverse.dropWhile isBlank).reverse

/-- The characters without the blanks at either end. -/
def trim (s : List Char) : List Char :=
  trimEnd (trimStart s)

/-- The text without the blanks at either end. -/
def strip (s : String) : String :=
  String.ofList (trim s.toList)

/-- Trimming nothing gives nothing. -/
@[simp] theorem trim_nil : trim [] = [] := rfl

/-- A text of blanks only is trimmed away. -/
theorem trim_of_forall_isBlank {s : List Char} (h : ∀ c ∈ s, isBlank c = true) : trim s = [] := by
  have hstart : trimStart s = [] := by
    unfold trimStart
    induction s with
    | nil => rfl
    | cons c rest ih =>
      rw [List.dropWhile_cons_of_pos (h c List.mem_cons_self)]
      exact ih fun d hd => h d (List.mem_cons_of_mem c hd)
  simp [trim, hstart, trimEnd]

/-! ## Fields and words -/

/-- The fields of a text between its runs of blanks.  A run at either end leaves an empty field
there, so there is always at least one field. -/
def fields : List Char → List (List Char)
  | [] => [[]]
  | c :: rest =>
    match fields rest with
    | [] => [[c]]
    | field :: more =>
      if isBlank c then
        match rest with
        | d :: _ => if isBlank d then field :: more else [] :: field :: more
        | [] => [] :: field :: more
      else (c :: field) :: more

/-- The words of a text: its fields that are not empty. -/
def wordsOf (s : List Char) : List (List Char) :=
  (fields s).filter fun field => !field.isEmpty

/-- The words of a text. -/
def words (s : String) : List String :=
  (wordsOf s.toList).map String.ofList

/-- A text without blanks is a single field. -/
theorem fields_of_forall_not_isBlank {s : List Char} (h : ∀ c ∈ s, isBlank c = false) :
    fields s = [s] := by
  induction s with
  | nil => rfl
  | cons c rest ih =>
    have hrest := ih fun d hd => h d (List.mem_cons_of_mem c hd)
    simp [fields, hrest, h c List.mem_cons_self]

end Retarget.Text
