import Retarget.Completion
import Retarget.Proofs.Grammar

/-!
# Completing what is being typed

A completion is a word and the number of characters in front of the cursor that it takes the place
of.  Which words are offered is decided by the token being typed (`Cut.token`): the first word of a
line, or what follows the last comma of a later one.  Every word that is offered continues this
token, whatever its case.

What is replaced is counted in another way, always behind the last comma and without regard to
blanks behind the word.  So a completion extends the token and leaves all else alone exactly if the
cursor is right behind the token and the token has no comma in it (`Completion.extends_token`).  It
is not, if the word is followed by a blank that is no space, or if the first word of a line has a
comma.
-/

namespace Retarget

/-! ## Words of a text -/

namespace Text

/-- Fields and the parts between single blanks differ in empty ones only. -/
theorem exists_fields (s : List Char) : ∃ field more parts, fields s = field :: more ∧
    s.splitOnP isBlank = field :: parts ∧
    more.filter (fun field => !field.isEmpty) = parts.filter fun field => !field.isEmpty := by
  induction s with
  | nil => exact ⟨[], [], [], rfl, List.splitOnP_nil, rfl⟩
  | cons c rest ih =>
    obtain ⟨field, more, parts, hfields, hparts, hsame⟩ := ih
    have hcons : (field :: more).filter (fun field => !field.isEmpty) =
        (field :: parts).filter fun field => !field.isEmpty := by
      rw [List.filter_cons, List.filter_cons, hsame]
    rw [fields, hfields, List.splitOnP_cons_eq_if_modifyHead, hparts]
    by_cases hc : isBlank c = true
    · simp only [if_pos hc]
      rcases rest with _ | ⟨d, rest⟩
      · exact ⟨[], field :: more, field :: parts, rfl, rfl, hcons⟩
      · by_cases hd : isBlank d = true
        · -- Behind a blank, the first field of the rest is the empty one in front of its blank.
          have hnil : field = [] := by
            rw [List.splitOnP_cons_eq_if_modifyHead, if_pos hd] at hparts
            exact (List.cons.inj hparts).1.symm
          simp only [if_pos hd]
          subst hnil
          exact ⟨[], more, [] :: parts, rfl, rfl, hsame⟩
        · simp only [if_neg hd]
          exact ⟨[], field :: more, field :: parts, rfl, rfl, hcons⟩
    · simp only [if_neg hc, List.modifyHead_cons]
      exact ⟨c :: field, more, parts, rfl, rfl, hsame⟩

/-- Words are the fields between blanks that are not empty. -/
theorem wordsOf_eq_filter (s : List Char) :
    wordsOf s = (s.splitOnP isBlank).filter fun field => !field.isEmpty := by
  obtain ⟨field, more, parts, hfields, hparts, hsame⟩ := exists_fields s
  rw [wordsOf, hfields, hparts, List.filter_cons, List.filter_cons, hsame]

/-- **A blank ends a word.** -/
theorem wordsOf_append_blank {c : Char} (hc : isBlank c = true) (s t : List Char) :
    wordsOf (s ++ c :: t) = wordsOf s ++ wordsOf t := by
  simp only [wordsOf_eq_filter]
  rw [List.splitOnP_append_cons s t hc, List.filter_append]

/-- Blanks have no words. -/
theorem wordsOf_of_blank {s : List Char} (h : ∀ c ∈ s, isBlank c = true) : wordsOf s = [] := by
  induction s with
  | nil => rfl
  | cons c rest ih =>
    obtain ⟨hc, hrest⟩ := List.forall_mem_cons.1 h
    rw [← List.nil_append (c :: rest), wordsOf_append_blank hc, ih hrest]
    rfl

/-- Blanks behind a text make no words. -/
theorem wordsOf_append_blanks {s t : List Char} (h : ∀ c ∈ t, isBlank c = true) :
    wordsOf (s ++ t) = wordsOf s := by
  rcases t with _ | ⟨c, t⟩
  · rw [List.append_nil]
  · obtain ⟨hc, ht⟩ := List.forall_mem_cons.1 h
    rw [wordsOf_append_blank hc, wordsOf_of_blank ht, List.append_nil]

/-- Behind a blank, words start anew. -/
theorem wordsOf_append {s : List Char} (h : ∀ c ∈ s.getLast?, isBlank c = true) (t : List Char) :
    wordsOf (s ++ t) = wordsOf s ++ wordsOf t := by
  rcases s.eq_nil_or_concat with rfl | ⟨s, c, rfl⟩
  · rfl
  · have hc : isBlank c = true := h c (by simp)
    rw [List.concat_eq_append, List.append_assoc, List.singleton_append, wordsOf_append_blank hc,
      wordsOf_append_blank hc, wordsOf_of_blank (List.forall_mem_nil _), List.append_nil]

/-- A text without blanks is one word. -/
theorem wordsOf_word {s : List Char} (hne : s ≠ []) (h : ∀ c ∈ s, isBlank c = false) :
    wordsOf s = [s] := by
  rw [wordsOf, fields_of_forall_not_isBlank h]
  simp [hne]

/-- Blanks in front of a text are not part of its words. -/
theorem wordsOf_trimStart (s : List Char) : wordsOf (trimStart s) = wordsOf s := by
  have hfront : ∀ c ∈ (s.takeWhile isBlank).getLast?, isBlank c = true :=
    fun c hc => List.mem_takeWhile_imp (List.mem_of_getLast? hc)
  conv_rhs => rw [← List.takeWhile_append_dropWhile (p := isBlank) (l := s), wordsOf_append hfront,
    wordsOf_of_blank fun c hc => List.mem_takeWhile_imp hc]
  rfl

/-- The end of a text that has more than blanks is not trimmed. -/
theorem getLast?_trimStart {s : List Char} {c : Char} (hc : c ∈ s) (hblank : isBlank c = false) :
    (trimStart s).getLast? = s.getLast? := by
  have hne : s.dropWhile isBlank ≠ [] := by
    intro hnil
    rw [List.dropWhile_eq_nil_iff.1 hnil c hc] at hblank
    cases hblank
  conv_rhs => rw [← List.takeWhile_append_dropWhile (p := isBlank) (l := s),
    List.getLast?_append_of_ne_nil _ hne]
  rfl

end Text

/-! ## The token being typed -/

/-- A text in front of the cursor, cut at its last word: blanks come in front of it and behind
it. -/
structure Cut where
  front : List Char
  word : List Char
  gap : List Char
  isBlank_front : ∀ c ∈ front.getLast?, Text.isBlank c = true
  not_isBlank_word : ∀ c ∈ word, Text.isBlank c = false
  isBlank_gap : ∀ c ∈ gap, Text.isBlank c = true
  front_eq_nil : word = [] → front = []

namespace Cut

/-- The text that was cut. -/
def text (cut : Cut) : List Char :=
  cut.front ++ cut.word ++ cut.gap

/-- Cuts a text at its last word. -/
def ofText (s : List Char) : Cut where
  front := (s.rdropWhile Text.isBlank).rdropWhile (!Text.isBlank ·)
  word := (s.rdropWhile Text.isBlank).rtakeWhile (!Text.isBlank ·)
  gap := s.rtakeWhile Text.isBlank
  isBlank_front := by
    intro c hc
    obtain ⟨hne, rfl⟩ := List.mem_getLast?_eq_getLast hc
    simpa using List.rdropWhile_last_not _ _ hne
  not_isBlank_word := fun c hc => by simpa using List.mem_rtakeWhile_imp hc
  isBlank_gap := fun c hc => List.mem_rtakeWhile_imp hc
  front_eq_nil := by
    -- What is left before the blanks at the end does not end in a blank.
    intro hword
    have hnil : s.rdropWhile Text.isBlank = [] := by
      by_contra hne
      refine List.rtakeWhile_eq_nil_iff.1 hword hne ?_
      simpa using List.rdropWhile_last_not _ _ hne
    rw [hnil, List.rdropWhile_nil]

/-- A cut text is put together again. -/
theorem text_ofText (s : List Char) : (ofText s).text = s := by
  rw [text, ofText, List.rdropWhile_append_rtakeWhile, List.rdropWhile_append_rtakeWhile]

/-- Whether the last word is the first one too. -/
def isFirst (cut : Cut) : Bool :=
  cut.front.all Text.isBlank

/-- The token being typed: none behind a space, else the first word of a line, or what follows the
last comma of a later one. -/
def token (cut : Cut) : List Char :=
  if cut.gap.getLast? = some ' ' then []
  else if cut.isFirst then cut.word
  else Completion.afterComma cut.word

/-- Whether the cursor is right behind the token, and the token has no comma in it. -/
def Settled (cut : Cut) : Prop :=
  (cut.gap = [] ∨ cut.token = []) ∧ ',' ∉ cut.token

instance : DecidablePred Settled := fun cut =>
  inferInstanceAs (Decidable ((cut.gap = [] ∨ cut.token = []) ∧ ',' ∉ cut.token))

variable (cut : Cut)

/-- The words of a cut text are those in front and the last one, if there is one. -/
theorem wordsOf_text : Text.wordsOf cut.text =
    Text.wordsOf cut.front ++ if cut.word = [] then [] else [cut.word] := by
  rw [text, Text.wordsOf_append_blanks cut.isBlank_gap, Text.wordsOf_append cut.isBlank_front]
  split
  · rename_i hword
    rw [hword]
    rfl
  · rename_i hword
    rw [Text.wordsOf_word hword cut.not_isBlank_word]

/-- A text without words is blank. -/
theorem forall_isBlank_of_wordsOf {s : List Char} (h : Text.wordsOf s = []) :
    ∀ c ∈ s, Text.isBlank c = true := by
  have hwords := (ofText s).wordsOf_text
  rw [text_ofText, h] at hwords
  have hword : (ofText s).word = [] := by
    by_contra hne
    rw [if_neg hne] at hwords
    exact List.append_ne_nil_of_right_ne_nil _ (List.cons_ne_nil _ _) hwords.symm
  have hgap : (ofText s).text = (ofText s).gap := by
    rw [text, hword, front_eq_nil _ hword]
    rfl
  rw [← text_ofText s, hgap]
  exact (ofText s).isBlank_gap

/-- A cut text ends in a space if its gap does. -/
theorem getLast?_text : cut.text.getLast? = some ' ' ↔ cut.gap.getLast? = some ' ' := by
  rcases eq_or_ne cut.gap [] with hgap | hgap
  · rw [text, hgap, List.append_nil]
    refine iff_of_false (fun hlast => ?_) (by simp)
    -- Without a gap the text ends with a word, or is empty.
    rcases eq_or_ne cut.word [] with hword | hword
    · rw [hword, cut.front_eq_nil hword] at hlast
      cases hlast
    · rw [List.getLast?_append_of_ne_nil _ hword] at hlast
      exact absurd (cut.not_isBlank_word ' ' (List.mem_of_getLast? hlast)) (by decide)
  · rw [text, List.getLast?_append_of_ne_nil _ hgap]

end Cut

namespace Completion

variable (cut : Cut)

theorem endsInSpace_text : endsInSpace cut.text = decide (cut.gap.getLast? = some ' ') := by
  rw [endsInSpace, Bool.eq_iff_iff, beq_iff_eq, decide_eq_true_eq, cut.getLast?_text]

/-- The typed word is the last one, unless a space comes behind it. -/
theorem typedWord_text : typedWord cut.text =
    if cut.gap.getLast? = some ' ' then [] else cut.word := by
  have hlast : (Text.wordsOf cut.text).getLast?.getD [] = cut.word := by
    rw [cut.wordsOf_text]
    split
    · rename_i hword
      rw [hword, cut.front_eq_nil hword]
      rfl
    · rw [List.getLast?_concat, Option.getD_some]
  rw [typedWord, endsInSpace_text, hlast]
  simp only [decide_eq_true_eq]

/-- The end of a text that has a word is not trimmed. -/
theorem endsInSpace_trimStart (hword : cut.word ≠ []) :
    endsInSpace (Text.trimStart cut.text) = endsInSpace cut.text := by
  obtain ⟨c, hc⟩ := List.exists_mem_of_ne_nil _ hword
  have hmem : c ∈ cut.text := List.mem_append_left _ (List.mem_append_right _ hc)
  rw [endsInSpace, endsInSpace, Text.getLast?_trimStart hmem (cut.not_isBlank_word c hc)]

/-- A text is at its start as long as its first word is typed. -/
theorem atStart_trimStart (hword : cut.word ≠ []) :
    atStart (Text.trimStart cut.text) = (cut.isFirst && !endsInSpace cut.text) := by
  rw [atStart, Text.wordsOf_trimStart, cut.wordsOf_text, if_neg hword,
    endsInSpace_trimStart cut hword]
  cases hwords : Text.wordsOf cut.front with
  | nil =>
    have hfirst : cut.isFirst = true := List.all_eq_true.2 (Cut.forall_isBlank_of_wordsOf hwords)
    rw [hfirst]
    rfl
  | cons first more =>
    have hfirst : cut.isFirst = false := by
      refine Bool.eq_false_iff.2 fun hall => ?_
      rw [Text.wordsOf_of_blank (List.all_eq_true.1 hall)] at hwords
      cases hwords
    rw [hfirst]
    cases more <;> rfl

/-- The word that is offered words for, as they are looked for. -/
theorem needle_eq_token : (if atStart (Text.trimStart cut.text) then
      typedWord (Text.trimStart cut.text) else afterComma (typedWord (Text.trimStart cut.text))) =
    cut.token := by
  rcases eq_or_ne cut.word [] with hword | hword
  · -- A text without words is trimmed away.
    have hfront := cut.front_eq_nil hword
    have htrim : Text.trimStart cut.text = [] := by
      rw [Cut.text, hword, hfront]
      exact List.dropWhile_eq_nil_iff.2 cut.isBlank_gap
    have htoken : cut.token = [] := by
      simp [Cut.token, Cut.isFirst, hfront, hword]
    rw [htrim, htoken]
    rfl
  · have htyped : typedWord (Text.trimStart cut.text) = typedWord cut.text := by
      rw [typedWord, typedWord, endsInSpace_trimStart cut hword, Text.wordsOf_trimStart]
    rw [htyped, atStart_trimStart cut hword, typedWord_text, endsInSpace_text, Cut.token]
    by_cases hspace : cut.gap.getLast? = some ' '
    · simp [hspace, afterComma]
    · simp [hspace]

/-- Every word that is offered continues the token. -/
theorem prefix_of_mem_candidates {a : Assembler} {word : String}
    (h : word ∈ candidates a (String.ofList cut.text)) :
    Text.lowerFrom false cut.token <+: (Text.lower word).toList := by
  have hword := (List.mem_filter.1 h).2
  simp only [String.toList_ofList, needle_eq_token, Bool.and_eq_true] at hword
  exact List.isPrefixOf_iff_prefix.1 hword.1

/-! ## What is replaced -/

/-- The characters of a text that a completion takes the place of. -/
def replacedPart (c : Completion) (s : List Char) : List Char :=
  s.drop (s.length - c.replaced)

/-- A text with a completion in place of what it replaces. -/
def accept (c : Completion) (s : List Char) : List Char :=
  s.take (s.length - c.replaced) ++ c.word.toList

/-- Whether a word goes on with what was typed, both in lower case. -/
def Continues (typed : List Char) (word : String) : Prop :=
  Text.lowerFrom false typed <+: (Text.lower word).toList

theorem afterComma_suffix (word : List Char) : afterComma word <:+ word :=
  List.rtakeWhile_suffix _ _

/-- There is no comma behind the last comma. -/
theorem comma_not_mem_afterComma (word : List Char) : ',' ∉ afterComma word := by
  intro hmem
  have hne := List.mem_rtakeWhile_imp (p := (· != ',')) hmem
  cases hne

/-- A word is behind its commas if it has none. -/
theorem afterComma_eq_self_iff {word : List Char} : afterComma word = word ↔ ',' ∉ word := by
  constructor
  · intro h
    rw [← h]
    exact comma_not_mem_afterComma word
  · intro h
    refine List.rtakeWhile_eq_self_iff.2 fun c hc => ?_
    rw [bne_iff_ne]
    rintro rfl
    exact h hc

/-- There are no blanks in a token. -/
theorem not_isBlank_of_mem_token {c : Char} (h : c ∈ cut.token) : Text.isBlank c = false := by
  rw [Cut.token] at h
  split at h
  · cases h
  · split at h
    · exact cut.not_isBlank_word c h
    · exact cut.not_isBlank_word c ((afterComma_suffix _).subset h)

/-- Where the cursor is behind the word, the end of the word is replaced. -/
theorem replacedPart_of_gap_eq_nil {c : Completion} (hgap : cut.gap = [])
    (h : c.replaced = (afterComma cut.word).length) :
    c.replacedPart cut.text = afterComma cut.word := by
  obtain ⟨before, hbefore⟩ := afterComma_suffix cut.word
  rw [replacedPart, Cut.text, hgap, List.append_nil, ← hbefore, ← List.append_assoc, hbefore, h]
  exact List.drop_left' (Nat.sub_eq_of_eq_add List.length_append).symm

/-- Behind blanks, whatever is replaced ends with a blank, and the token has none. -/
theorem token_eq_nil_of_replacedPart {c : Completion} (hgap : cut.gap ≠ [])
    (hpart : c.replacedPart cut.text = cut.token) : cut.token = [] := by
  by_contra hne
  obtain ⟨kept, hkept⟩ := List.drop_suffix (cut.text.length - c.replaced) cut.text
  have hlast : cut.token.getLast? = cut.gap.getLast? := by
    rw [← List.getLast?_append_of_ne_nil kept hne, ← hpart]
    exact (congrArg List.getLast? hkept).trans (List.getLast?_append_of_ne_nil _ hgap)
  have hblank : cut.gap.getLast hgap ∈ cut.token := by
    rw [List.getLast?_eq_some_getLast hgap] at hlast
    exact List.mem_of_getLast? hlast
  have hboth := not_isBlank_of_mem_token cut hblank
  rw [cut.isBlank_gap _ (List.getLast_mem hgap)] at hboth
  cases hboth

/-- **The token is replaced, and nothing else, if the text is settled, and only then.** -/
theorem replacedPart_eq_token_iff {c : Completion}
    (h : c.replaced = (afterComma (typedWord cut.text)).length) :
    c.replacedPart cut.text = cut.token ↔ cut.Settled := by
  rw [typedWord_text] at h
  by_cases hspace : cut.gap.getLast? = some ' '
  · have hnone : c.replaced = 0 := by simp [h, hspace, afterComma]
    simp [replacedPart, hnone, Cut.Settled, Cut.token, hspace]
  · rw [if_neg hspace] at h
    rcases eq_or_ne cut.gap [] with hgap | hgap
    · rw [replacedPart_of_gap_eq_nil cut hgap h, Cut.Settled, Cut.token, if_neg hspace]
      split
      · rw [afterComma_eq_self_iff]
        simp [hgap]
      · simp [hgap, comma_not_mem_afterComma]
    · have hsettled : cut.Settled ↔ cut.token = [] := by
        refine ⟨fun hs => hs.1.resolve_left hgap, fun htoken => ⟨.inr htoken, ?_⟩⟩
        rw [htoken]
        exact List.not_mem_nil
      rw [hsettled]
      refine ⟨token_eq_nil_of_replacedPart cut hgap, fun htoken => ?_⟩
      have hnone : afterComma cut.word = [] := by
        rw [Cut.token, if_neg hspace] at htoken
        split at htoken
        · rw [htoken]
          rfl
        · exact htoken
      rw [htoken, replacedPart, h, hnone, List.length_nil, Nat.sub_zero, List.drop_length]

/-- **A completion extends the token being typed.**  Every word that is offered continues the token.
What it replaces is the token exactly if the text is settled; then accepting it puts the word in the
place of the token and changes nothing else. -/
theorem extends_token (a : Assembler) (text : String) {c : Completion}
    (h : c ∈ completions a text) :
    Continues (Cut.ofText text.toList).token c.word ∧
    (c.replacedPart text.toList = (Cut.ofText text.toList).token ↔
      (Cut.ofText text.toList).Settled) ∧
    ((Cut.ofText text.toList).Settled → Continues (c.replacedPart text.toList) c.word ∧
      ∃ kept, text.toList = kept ++ (Cut.ofText text.toList).token ∧
        c.accept text.toList = kept ++ c.word.toList) := by
  obtain ⟨word, hword, rfl⟩ := List.mem_map.1 h
  generalize hcut : Cut.ofText text.toList = cut
  have htext : text.toList = cut.text := by rw [← hcut, Cut.text_ofText]
  have hcontinues : Continues cut.token word := by
    rw [← String.ofList_toList (s := text), htext] at hword
    exact prefix_of_mem_candidates cut hword
  have hiff := replacedPart_eq_token_iff cut
    (c := ⟨word, (afterComma (typedWord cut.text)).length⟩) rfl
  rw [htext]
  refine ⟨hcontinues, hiff, fun hsettled => ?_⟩
  have hpart := hiff.2 hsettled
  refine ⟨hpart ▸ hcontinues, _, ?_, rfl⟩
  conv_rhs => rw [← hpart]
  exact (List.take_append_drop _ _).symm

/-- An assembler that knows a label. -/
def labelled : Assembler :=
  { symbols := [("loop", .number 0)] }

theorem extends_token_operand :
    ⟨"loop", 2⟩ ∈ completions labelled "jmp a,Lo" ∧ (Cut.ofText "jmp a,Lo".toList).Settled ∧
      Continues (replacedPart ⟨"loop", 2⟩ "jmp a,Lo".toList) "loop" := by
  have hmem : ⟨"loop", 2⟩ ∈ completions labelled "jmp a,Lo" := by decide +kernel
  have hsettled : (Cut.ofText "jmp a,Lo".toList).Settled := by decide +kernel
  exact ⟨hmem, hsettled, ((extends_token labelled "jmp a,Lo" hmem).2.2 hsettled).1⟩

-- Behind a tab the word in front of it is still taken for the one being typed.
example : completions labelled "jmp l\t" = [⟨"loop", 1⟩] ∧
    accept ⟨"loop", 1⟩ "jmp l\t".toList = "jmp lloop".toList := by decide +kernel

end Completion

end Retarget
