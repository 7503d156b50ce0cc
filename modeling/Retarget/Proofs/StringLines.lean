import Retarget.Proofs.Completing
import Retarget.Proofs.Decoding
import Retarget.Proofs.Limits

/-!
# Texts between quotes

A line that emits a text is taken apart by readers that know nothing of quotes: its comment is
dropped, its ends are trimmed, its label and the word of the directive are cut off, and only what is
left then loses its quotes.  `StringLine` is such a line with a text that may hold anything but a
line feed.

Blanks, quotes, colons and periods of the text come through all of this, and of a text with a
semicolon the part in front of the first one is left, with the opening quote if it has none at its
own end (`StringLine.characters`).  What is left is emitted one word each where there is room
(`EmitsText`), and nothing else of the assembler changes.
-/

namespace Retarget

/-! ## Taking a line apart -/

namespace Text

theorem not_isBlank_quote : isBlank '"' = false := by decide

/-- What is not blank keeps all in front of it. -/
theorem trimEnd_append_cons {c : Char} (hc : isBlank c = false) (front s : List Char) :
    trimEnd (front ++ c :: s) = front ++ c :: trimEnd s := by
  have hreverse : (front ++ c :: s).reverse = s.reverse ++ c :: front.reverse := by simp
  rw [trimEnd, hreverse, List.dropWhile_append]
  split
  next hall =>
    rw [trimEnd, List.isEmpty_iff.1 hall]
    simp [hc]
  next => simp [trimEnd]

theorem not_isBlank_of_getLast?_trimEnd {s : List Char} :
    ∀ c ∈ (trimEnd s).getLast?, isBlank c = false := by
  intro c hc
  rw [trimEnd, List.getLast?_reverse] at hc
  have hhead := List.head?_dropWhile_not isBlank s.reverse
  rw [hc] at hhead
  exact hhead

/-- A word in front of a blank is the first field. -/
theorem exists_fields_word {word : List Char} (hword : ∀ c ∈ word, isBlank c = false) {c : Char}
    (hc : isBlank c = true) (rest : List Char) :
    ∃ more, fields (word ++ c :: rest) = word :: more := by
  obtain ⟨field, more, parts, hfields, hparts, -⟩ := exists_fields (word ++ c :: rest)
  have hsingle : word.splitOnP isBlank = [word] :=
    List.splitOnP_eq_singleton fun d hd => by rw [hword d hd]
  rw [List.splitOnP_append_cons word rest hc, hsingle, List.singleton_append] at hparts
  obtain ⟨rfl, -⟩ := List.cons.inj hparts
  exact ⟨more, hfields⟩

theorem lowerFrom_of_ascii {s : List Char} (h : ∀ c ∈ s, c.toNat < 128) (afterCased : Bool) :
    lowerFrom afterCased s = s.map Char.toLower := by
  induction s generalizing afterCased with
  | nil => rfl
  | cons c rest ih =>
    obtain ⟨hc, hrest⟩ := List.forall_mem_cons.1 h
    have hsigma : c ≠ 'Σ' := by
      rintro rfl
      exact absurd hc (by decide)
    have hdotted : c ≠ 'İ' := by
      rintro rfl
      exact absurd hc (by decide)
    rw [lowerFrom, ih hrest, lowerAt]
    simp [hsigma, hdotted, lowerChar, hc]

end Text

namespace Statement

theorem dropComments_inside {s : List Char} (h : '\n' ∉ s) : dropComments true s = [] := by
  induction s with
  | nil => rfl
  | cons c rest ih =>
    obtain ⟨hc, hrest⟩ := not_or.1 (mt List.mem_cons.2 h)
    rw [dropComments, ih hrest]
    simp [Ne.symm hc]

/-- A comment goes up to the end of its line. -/
theorem dropComments_of_one_line {s : List Char} (h : '\n' ∉ s) :
    dropComments false s = s.takeWhile (· ≠ ';') := by
  induction s with
  | nil => rfl
  | cons c rest ih =>
    obtain ⟨hc, hrest⟩ := not_or.1 (mt List.mem_cons.2 h)
    rw [dropComments, ih hrest, dropComments_inside hrest, List.takeWhile_cons]
    by_cases hsemi : c = ';' <;> simp [Ne.symm hc, hsemi]

/-- No comment starts without a semicolon. -/
theorem dropComments_append {front : List Char} (h : ';' ∉ front) (s : List Char) :
    dropComments false (front ++ s) = front ++ dropComments false s := by
  induction front with
  | nil => rfl
  | cons c rest ih =>
    obtain ⟨hc, hrest⟩ := not_or.1 (mt List.mem_cons.2 h)
    rw [List.cons_append, dropComments, ih hrest]
    simp [Ne.symm hc]

end Statement

/-! ## Lines that emit a text -/

/-- A line that emits a text between double quotes, with a label or without. -/
structure StringLine where
  label : Option String
  /-- The blanks in front of the directive. -/
  gap : List Char
  /-- The word of the directive, in whatever case. -/
  word : List Char
  /-- The blanks between the directive and the text. -/
  space : List Char
  text : List Char
  isLabel : ∀ name ∈ label, IsLabel name
  gap_blank : ∀ c ∈ gap, Text.isBlank c = true
  lower_word : word.map Char.toLower = ".string".toList
  space_ne_nil : space ≠ []
  space_blank : ∀ c ∈ space, Text.isBlank c = true
  one_line : '\n' ∉ text

/-- What can be said of the characters of the directive's word. -/
theorem of_toLower_mem {c : Char} (h : c.toLower ∈ ".string".toList) :
    c.toNat < 128 ∧ Text.isBlank c = false ∧ c ≠ ';' ∧ (c.toLower = '.' → c = '.') := by
  have hascii : c.toNat < 128 := by
    by_contra hc
    have hsame : c.toLower = c := by
      rw [Char.toLower, dif_neg]
      rintro ⟨-, hz⟩
      exact hc (lt_of_le_of_lt hz (by decide))
    rw [hsame] at h
    have hletters : ".string".toList.all fun d => d.toNat < 128 := by decide
    exact hc (of_decide_eq_true (List.all_eq_true.1 hletters c h))
  exact ⟨hascii, Text.ascii_induction (P := fun c => c.toLower ∈ ".string".toList →
    Text.isBlank c = false ∧ c ≠ ';' ∧ (c.toLower = '.' → c = '.')) (by decide +kernel) hascii h⟩

namespace StringLine

variable (q : StringLine)

/-- What stands in front of the directive. -/
def front : List Char :=
  (q.label.elim [] fun name => name.toList ++ [':']) ++ q.gap

/-- The line as written. -/
def line : String :=
  String.ofList (q.front ++ q.word ++ q.space ++ '"' :: (q.text ++ ['"']))

/-- The characters that the line emits: the text, or what is left of it in front of a comment. -/
def characters : List Char :=
  if ';' ∈ q.text then
    let kept := Text.trimEnd (q.text.takeWhile (· ≠ ';'))
    if kept.getLast? = some '"' then kept.dropLast else '"' :: kept
  else q.text

/-- What of the line stands behind the opening quote and in front of a comment. -/
def uncommented : List Char :=
  (q.text ++ ['"']).takeWhile (· ≠ ';')

/-- The argument of the directive. -/
def argument : List Char :=
  '"' :: Text.trimEnd q.uncommented

/-- The directive and its argument. -/
def command : List Char :=
  q.word ++ (q.space ++ q.argument)

theorem toLower_mem {c : Char} (h : c ∈ q.word) : c.toLower ∈ ".string".toList :=
  q.lower_word ▸ List.mem_map_of_mem h

theorem word_not_blank : ∀ c ∈ q.word, Text.isBlank c = false :=
  fun _ hc => (of_toLower_mem (q.toLower_mem hc)).2.1

theorem exists_word : ∃ more, q.word = '.' :: more := by
  have hlower := q.lower_word
  rcases hword : q.word with _ | ⟨c, more⟩
  · rw [hword] at hlower
    cases hlower
  · rw [hword, List.map_cons] at hlower
    have hperiod : c.toLower = '.' := (List.cons.inj hlower).1
    have hmem : c ∈ q.word := hword ▸ List.mem_cons_self
    exact ⟨more, by rw [(of_toLower_mem (q.toLower_mem hmem)).2.2.2 hperiod]⟩

theorem ofWord?_word :
    Directive.ofWord? (Text.lower (String.ofList q.word)) = some .string := by
  have hascii : ∀ c ∈ q.word, c.toNat < 128 := fun _ hc => (of_toLower_mem (q.toLower_mem hc)).1
  rw [Text.lower, String.toList_ofList, Text.lowerFrom_of_ascii hascii, q.lower_word]
  decide

/-- There is no comment in front of the text. -/
theorem semicolon_not_mem_lead : ';' ∉ q.front ++ q.word ++ q.space ++ ['"'] := by
  have hblank : ∀ {s : List Char}, (∀ c ∈ s, Text.isBlank c = true) → ';' ∉ s :=
    fun h hmem => absurd (h _ hmem) (by decide)
  have hlabel : ';' ∉ q.label.elim [] fun name => name.toList ++ [':'] := by
    rcases hl : q.label with _ | name
    · exact List.not_mem_nil
    · have hname := (q.isLabel name hl).isWord
      simp only [Option.elim_some, List.mem_append, List.mem_singleton]
      rintro (h | h)
      · exact absurd (hname _ h) (by decide)
      · exact absurd h (by decide)
  have hword : ';' ∉ q.word := fun h => (of_toLower_mem (q.toLower_mem h)).2.2.1 rfl
  simp only [front, List.mem_append, List.mem_singleton, not_or]
  exact ⟨⟨⟨⟨hlabel, hblank q.gap_blank⟩, hword⟩, hblank q.space_blank⟩, by decide⟩

/-- Only a semicolon of the text starts a comment. -/
theorem dropComments_line : Statement.dropComments false q.line.toList =
    q.front ++ (q.word ++ (q.space ++ '"' :: q.uncommented)) := by
  have hline : q.line.toList =
      q.front ++ q.word ++ q.space ++ ['"'] ++ (q.text ++ ['"']) := by
    simp [line]
  have hone : '\n' ∉ q.text ++ ['"'] := by simp [q.one_line]
  rw [hline, Statement.dropComments_append q.semicolon_not_mem_lead,
    Statement.dropComments_of_one_line hone, ← uncommented]
  simp

/-- The argument without its quotes. -/
theorem unquote_argument : Command.unquote q.argument = q.characters := by
  have hunquote : ∀ s : List Char, Command.unquote ('"' :: s) =
      if s.getLast? = some '"' then s.dropLast else '"' :: s := fun _ => rfl
  rw [argument, hunquote, uncommented, characters]
  by_cases hsemi : ';' ∈ q.text
  · have hshort : (q.text.takeWhile (· ≠ ';')).length ≠ q.text.length := by
      intro hlength
      have hall := (List.takeWhile_prefix _).eq_of_length hlength
      exact absurd (List.takeWhile_eq_self_iff.1 hall ';' hsemi) (by decide)
    rw [if_pos hsemi, List.takeWhile_append, if_neg hshort]
  · have hall : ∀ c ∈ q.text ++ ['"'], decide (c ≠ ';') = true := by
      rw [List.forall_mem_append, List.forall_mem_singleton]
      exact ⟨fun c hc => decide_eq_true fun he => hsemi (he ▸ hc), by decide⟩
    have hnil : Text.trimEnd [] = [] := rfl
    rw [if_neg hsemi, List.takeWhile_eq_self_iff.2 hall,
      Text.trimEnd_append_cons Text.not_isBlank_quote, hnil, List.getLast?_concat, if_pos rfl,
      List.dropLast_concat]

theorem head?_command : q.command.head? = some '.' := by
  obtain ⟨more, hword⟩ := q.exists_word
  rw [command, hword]
  rfl

theorem isDirective_command : Statement.isDirective q.command = true := by
  rw [Statement.isDirective, q.head?_command]
  rfl

theorem bodyOf_command : Statement.bodyOf q.command = .directive (String.ofList q.command) := by
  rw [Statement.bodyOf, if_pos q.isDirective_command]

/-- Neither end of the argument is blank. -/
theorem argument_ends : (∀ c ∈ q.argument.head?, Text.isBlank c = false) ∧
    ∀ c ∈ q.argument.getLast?, Text.isBlank c = false := by
  have htrim : q.argument = Text.trimEnd ('"' :: q.uncommented) :=
    (Text.trimEnd_append_cons Text.not_isBlank_quote [] q.uncommented).symm
  refine ⟨?_, htrim ▸ Text.not_isBlank_of_getLast?_trimEnd⟩
  rintro _ ⟨⟩
  exact Text.not_isBlank_quote

theorem trim_gap_command : Text.trim (q.gap ++ q.command) = q.command := by
  rw [← List.append_nil (q.gap ++ q.command)]
  refine Text.trim_between q.gap_blank (List.forall_mem_nil _) ?_ ?_
  · rw [q.head?_command]
    rintro _ ⟨⟩
    decide
  · have hne : q.argument ≠ [] := List.cons_ne_nil _ _
    rw [command, ← List.append_assoc, List.getLast?_append_of_ne_nil _ hne]
    exact q.argument_ends.2

theorem trim_lead (lead : List Char) (h : ∀ c ∈ (lead ++ q.word).head?, Text.isBlank c = false) :
    Text.trim (lead ++ (q.word ++ (q.space ++ '"' :: q.uncommented))) = lead ++ q.command := by
  obtain ⟨more, hword⟩ := q.exists_word
  have hne : lead ++ q.word ≠ [] := by simp [hword]
  rw [Text.trim, ← List.append_assoc, Text.trimStart_of_head, ← List.append_assoc,
    Text.trimEnd_append_cons Text.not_isBlank_quote, command, argument, List.append_assoc,
    List.append_assoc]
  rwa [List.head?_append_of_ne_nil _ hne]

/-- **The line is its label and its directive.** -/
theorem parse_line : Statement.parse q.line =
    ⟨q.label.map Text.lower, .directive (String.ofList q.command)⟩ := by
  have hperiod : ∀ c ∈ q.word.head?, Text.isBlank c = false := by
    obtain ⟨more, hword⟩ := q.exists_word
    rw [hword]
    rintro _ ⟨⟩
    decide
  rw [Statement.parse, q.dropComments_line, front]
  rcases hl : q.label with _ | name
  · have htrim :
        Text.trim (q.gap ++ (q.word ++ (q.space ++ '"' :: q.uncommented))) = q.command := by
      rw [Text.trim, Text.trimStart_append q.gap_blank, ← Text.trim]
      exact q.trim_lead [] hperiod
    simp only [Option.elim_none, List.nil_append, htrim, q.isDirective_command, if_true,
      q.bodyOf_command]
    rfl
  · -- The blanks between the label and the directive are trimmed only after the label is cut off.
    obtain ⟨hne, hname⟩ := q.isLabel name hl
    obtain ⟨c, more, hcons⟩ := List.exists_cons_of_ne_nil hne
    have hc : Text.isWord c = true := hname c (hcons ▸ List.mem_cons_self)
    have hhead : ∀ d ∈ (name.toList ++ [':'] ++ q.gap ++ q.word).head?, Text.isBlank d = false := by
      rw [hcons]
      rintro _ ⟨⟩
      exact Text.isBlank_of_isWord hc
    have hlabelled :
        Statement.isDirective (name.toList ++ ':' :: (q.gap ++ q.command)) = false := by
      rw [Statement.isDirective, hcons, List.cons_append, List.head?_cons, beq_eq_false_iff_ne]
      rintro ⟨⟩
      exact absurd hc (by decide)
    have htrim := q.trim_lead _ hhead
    simp only [List.append_assoc, List.cons_append, List.nil_append] at htrim
    simp only [Option.elim_some, List.append_assoc, List.cons_append, List.nil_append, htrim,
      hlabelled,
      Bool.false_eq_true, if_false, Statement.splitLabel?_word hne hname, q.trim_gap_command,
      q.bodyOf_command, String.ofList_toList, Option.map_some]

theorem exists_parse_command : ∃ args,
    Command.parse (String.ofList q.command) =
      ⟨String.ofList q.word, args, String.ofList q.argument⟩ := by
  have hspace := q.space_blank
  have htrim : Text.trim (q.space ++ q.argument) = q.argument := by
    rw [← List.append_nil (q.space ++ q.argument)]
    exact Text.trim_between hspace (List.forall_mem_nil _) q.argument_ends.1 q.argument_ends.2
  obtain ⟨c, rest, hcons⟩ := List.exists_cons_of_ne_nil q.space_ne_nil
  obtain ⟨more, hfields⟩ : ∃ more, Text.fields q.command = q.word :: more := by
    rw [command, hcons, List.cons_append]
    exact Text.exists_fields_word q.word_not_blank (hspace c (hcons ▸ List.mem_cons_self)) _
  refine ⟨more.map String.ofList, ?_⟩
  rw [Command.parse, String.toList_ofList, hfields]
  simp only
  rw [command, List.drop_left, htrim]

theorem obey_command [Machine] (library : Option Library)
    (nested : List String → Attempt Assembler Unit) :
    Assembler.obey library nested (String.ofList q.command) =
      (Assembler.emitWords (q.characters.map fun c => (c.toNat : Int)) >>= fun _ => pure ()) := by
  obtain ⟨args, hparse⟩ := q.exists_parse_command
  rw [Assembler.obey, hparse]
  simp only [q.ofWord?_word, String.toList_ofList, q.unquote_argument]

end StringLine

/-! ## Emitting the text -/

namespace Assembler

section

open Attempt

variable [Machine] {a b : Assembler}

/-- Whether there is room for this many more words. -/
def HasRoomFor (a : Assembler) (count : Nat) : Prop :=
  count = 0 ∨ Capacity.fieldBits a.width = .ok a.width.toNat ∧
    a.image.place a.ip + count ≤ Machine.words

/-- The length of the image when this many more words are stored. -/
def sizeWith (a : Assembler) (count : Nat) : Nat :=
  if count = 0 then a.image.words.size else max a.image.words.size (a.image.place a.ip + count)

/-- Words that were stored had room, and the image is as long as they need.  By induction on the
words. -/
theorem room_of_each (hs : a.Sound) {values : List Int}
    (h : (Attempt.each store values).runFrom a = (.ok (), b)) :
    a.HasRoomFor values.length ∧ b.image.words.size = a.sizeWith values.length := by
  induction values generalizing a with
  | nil =>
    cases h
    exact ⟨.inl rfl, rfl⟩
  | cons value rest ih =>
    by_cases hplace : a.image.Reaches a.ip ∧ Capacity.fieldBits a.width = .ok a.width.toNat
    · obtain ⟨hreach, hbits⟩ := hplace
      rw [Attempt.each, runFrom_bind_ok (store_of_reaches hs hreach hbits value)] at h
      obtain ⟨hroom, hsize⟩ := ih (hs.withWord hreach value) h
      have hfirst := hs.reaches_iff.1 hreach
      have hgrown : (a.withWord value).image.words.size =
          max a.image.words.size (a.image.place a.ip + 1) := Words.size_deposit _ _ _
      rw [sizeWith, place_withWord hreach, hgrown] at hsize
      rw [HasRoomFor, place_withWord hreach] at hroom
      rw [HasRoomFor, sizeWith, List.length_cons]
      refine ⟨.inr ⟨hbits, ?_⟩, ?_⟩
      · rcases hroom with hnil | ⟨-, hroom⟩ <;> omega
      · rw [if_neg (Nat.succ_ne_zero _)]
        split at hsize <;> omega
    · obtain ⟨why, words, hstore, -⟩ := store_of_error hs hplace value
      rw [Attempt.each, runFrom_bind_error hstore] at h
      cases h

/-- Storing words succeeds where there is room for them. -/
theorem bounded_each_store (hs : a.Sound) (values : List Int) :
    Bounded ((Attempt.each store values).runFrom a).1 (a.HasRoomFor values.length) := by
  rcases hrun : (Attempt.each store values).runFrom a with ⟨fault | u, b⟩
  · obtain ⟨count, -, ⟨hok, -⟩ | ⟨⟨why, hwhy⟩, hcount, hno⟩⟩ := storedUpTo_of_each hs hrun
    · cases hok
    · refine .of_error hwhy rfl ?_
      rintro (hnil | ⟨hbits, hroom⟩)
      · omega
      · rcases hno with hno | hno
        · exact hno _ hbits
        · omega
  · exact .of_ok rfl (room_of_each hs hrun).1

/-- What a line does that emits characters: `b` is `a` with one word for each of them, behind the
label that the line may have.  The words of other addresses stay, and no diagnostic or fixup is
added. -/
structure EmitsText (a : Assembler) (label : Option String) (characters : List Char)
    (b : Assembler) : Prop where
  frame : b = { a with
    line := a.line + 1
    ip := a.ip + characters.length
    symbols := label.elim a.symbols fun name =>
      Bindings.bind a.symbols (Text.lower name) (.number a.ip)
    records := a.records.push
      { line := a.line + 1, offset := a.ip, nbits := a.width * characters.length }
    image := { a.image with words := b.image.words } }
  words : (List.range characters.length).mapM (fun (k : Nat) => b.image.read (a.ip + k)) =
    .ok (characters.map fun c => c.toNat % 2 ^ a.width.toNat)
  kept : ∀ address, address < a.ip ∨ a.ip + characters.length ≤ address →
    b.image.read address = a.image.read address
  size : b.image.words.size = a.sizeWith characters.length

/-- The assembler that has read all of the line but has stored no words yet. -/
def announced (a : Assembler) (q : StringLine) : Assembler :=
  { a with
    line := a.line + 1
    symbols := q.label.elim a.symbols fun name =>
      Bindings.bind a.symbols (Text.lower name) (.number a.ip)
    records := a.records.push
      { line := a.line + 1, offset := a.ip, nbits := a.width * q.characters.length } }

/-- The line stores the characters that are left of its text. -/
theorem runFrom_step_quoted (library : Option Library) (q : StringLine) (a : Assembler) :
    (step library q.line).runFrom a =
      (Attempt.each store (q.characters.map fun c => (c.toNat : Int)) >>=
        fun _ => pure none).runFrom (a.announced q) := by
  have hbody : (Statement.parse q.line).body = .directive (String.ofList q.command) := by
    rw [q.parse_line]
  have hbegun : a.begun q.line = { a with
      line := a.line + 1
      symbols := q.label.elim a.symbols fun name =>
        Bindings.bind a.symbols (Text.lower name) (.number a.ip) } := by
    rw [begun, q.parse_line]
    cases q.label <;> rfl
  rw [step, runFrom_assembleLine_directive hbody, q.obey_command,
    bind_of_run (runFrom_emitWords _ _),
    hbegun, List.length_map, announced]
  rfl

/-- The words that were stored are those of the text. -/
theorem emitsText_of_each (hs : a.Sound) {q : StringLine}
    (h : (Attempt.each store (q.characters.map fun c => (c.toNat : Int))).runFrom (a.announced q) =
      (.ok (), b)) : a.EmitsText q.label q.characters b := by
  have hsound : (a.announced q).Sound := hs.congr rfl rfl rfl rfl
  have hbehind : (a.announced q).image.origin ≤ (a.announced q).ip :=
    hs.image_origin ▸ hs.origin_le
  obtain ⟨count, hstored, ⟨-, rfl⟩ | ⟨⟨why, ⟨⟩⟩, -⟩⟩ := storedUpTo_of_each hsound h
  have hwords := hstored.mapM_read hbehind
  have hframe := hstored.frame
  have hkept : ∀ address, address < a.ip ∨ a.ip + (q.characters.length : Int) ≤ address →
      b.image.read address = a.image.read address := by
    intro address haddress
    refine hstored.read_kept hbehind ?_
    rwa [List.length_map]
  have hsize := (room_of_each hsound h).2
  rw [List.length_map] at hwords hframe hsize
  rw [List.map_map] at hwords
  refine ⟨hframe, hwords.trans ?_, hkept, hsize⟩
  congr 1
  exact List.map_congr_left fun c _ => Bits.low_natCast _ _

/-- **A quoted text is emitted character for character.**  Whatever calls were made before, a line
with a text between quotes succeeds if there is room for the characters that it emits, and else
fails for something too large. -/
theorem emits_quoted (library : Option Library) (active : Option InstructionSet) (calls : List Call)
    (q : StringLine) {a : Assembler} (ha : a = afterCalls library calls (fresh active)) :
    (a.HasRoomFor q.characters.length →
      ∃ b, (step library q.line).runFrom a = (.ok none, b) ∧ a.EmitsText q.label q.characters b) ∧
    (¬ a.HasRoomFor q.characters.length →
      ∃ fault b,
        (step library q.line).runFrom a = (.error fault, b) ∧ fault.isTooLarge = true) := by
  have hs : a.Sound := ha ▸ ((wellFormed_fresh active).afterCalls calls).toSound
  have hsound : (a.announced q).Sound := hs.congr rfl rfl rfl rfl
  have hbounded := bounded_each_store hsound (q.characters.map fun c => (c.toNat : Int))
  rw [List.length_map] at hbounded
  rw [runFrom_step_quoted]
  rcases hrun : (Attempt.each store (q.characters.map fun c => (c.toNat : Int))).runFrom
    (a.announced q) with ⟨fault | u, b⟩
  · rw [hrun] at hbounded
    refine ⟨fun hroom => ?_, fun _ => ⟨fault, b, runFrom_bind_error hrun _,
      hbounded.isTooLarge_of_error rfl⟩⟩
    obtain ⟨u, ⟨⟩⟩ := hbounded.ok hroom
  · rw [hrun] at hbounded
    refine ⟨fun _ => ⟨b, runFrom_bind_ok hrun _, emitsText_of_each hs hrun⟩, fun hroom => ?_⟩
    obtain ⟨fault, ⟨⟩, -⟩ := hbounded.error hroom

end

/-- A label, a directive in mixed case, and a text with quotes, a colon and blanks of its own. -/
def mottoLine : StringLine where
  label := some "Motto"
  gap := []
  word := ".StRing".toList
  space := ['\t', ' ']
  text := " \"é: .\" ".toList
  isLabel := by
    rintro _ ⟨⟩
    exact ⟨by decide, List.all_eq_true.1 (by decide)⟩
  gap_blank := List.forall_mem_nil _
  lower_word := by decide
  space_ne_nil := List.cons_ne_nil _ _
  space_blank := List.all_eq_true.1 (by decide)
  one_line := by decide

open UsualMachine

theorem emits_quoted_motto :
    mottoLine.characters = mottoLine.text ∧
      mottoLine.line = "Motto:.StRing\t \" \"é: .\" \"" ∧
      (afterCalls none [.line ".width 7", .line ".org 5"] (fresh none)).HasRoomFor 8 ∧
      ∃ b, (step none mottoLine.line).runFrom
          (afterCalls none [.line ".width 7", .line ".org 5"] (fresh none)) = (.ok none, b) ∧
        EmitsText (afterCalls none [.line ".width 7", .line ".org 5"] (fresh none)) (some "Motto")
          mottoLine.text b := by
  have hcharacters : mottoLine.characters = mottoLine.text := by decide
  have hroom : (afterCalls none [.line ".width 7", .line ".org 5"] (fresh none)).HasRoomFor 8 := by
    have hwidth : (afterCalls none [.line ".width 7", .line ".org 5"] (fresh none)).width = 7 := by
      decide +kernel
    rw [HasRoomFor, hwidth]
    exact .inr ⟨rfl, by decide +kernel⟩
  refine ⟨hcharacters, by decide, hroom, ?_⟩
  have hresult := emits_quoted none none [.line ".width 7", .line ".org 5"] mottoLine rfl
  rw [hcharacters] at hresult
  exact hresult.1 hroom

/-- A semicolon of the text starts a comment all the same. -/
theorem not_emits_semicolon : ¬ ∃ b,
    (step none ".string \"a;b\"").runFrom (fresh none) = (.ok none, b) ∧
      (fresh none).EmitsText none "a;b".toList b := by
  rintro ⟨b, hrun, htext⟩
  have hip : ((step none ".string \"a;b\"").runFrom (fresh none)).2.ip = 2 := by decide +kernel
  have hthree : b.ip = 3 := congrArg Assembler.ip htext.frame
  rw [hrun, hthree] at hip
  exact absurd hip (by decide)

end Assembler

end Retarget
