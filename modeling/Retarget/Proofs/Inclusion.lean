import Retarget.Proofs.Letters
import Retarget.Proofs.Trace

/-!
# Including a source is pasting it

A line that names a source re-enters the assembly of lines from within.  Here it is shown to do
exactly what the lines of the source do in its place: all of the state is the same afterwards,
whether the source runs to its end, stops at a fatal line or fails (`include_eq_paste`).

How deep sources may be nested is limited, so the source must leave room for one more level:
`NestsWithin` says how deep the sources that it names go.
-/

namespace Retarget

/-! ## Texts of lines -/

namespace Text

theorem trimStart_of_head {s : List Char} (h : ∀ c ∈ s.head?, isBlank c = false) :
    trimStart s = s := by
  cases s with
  | nil => rfl
  | cons c rest => rw [trimStart, List.dropWhile_cons_of_neg (by simp [h c rfl])]

theorem trimEnd_of_getLast {s : List Char} (h : ∀ c ∈ s.getLast?, isBlank c = false) :
    trimEnd s = s := by
  rw [← List.head?_reverse] at h
  have := trimStart_of_head h
  rw [trimStart] at this
  rw [trimEnd, this, List.reverse_reverse]

/-- A text that neither starts nor ends with a blank is left alone. -/
theorem trim_of_ends {s : List Char} (hhead : ∀ c ∈ s.head?, isBlank c = false)
    (hlast : ∀ c ∈ s.getLast?, isBlank c = false) : trim s = s := by
  rw [trim, trimStart_of_head hhead, trimEnd_of_getLast hlast]

/-- Two words with a blank between them are two fields. -/
theorem fields_two_words {v w : List Char} (hv : ∀ c ∈ v, isBlank c = false) (hne : w ≠ [])
    (hw : ∀ c ∈ w, isBlank c = false) : fields (v ++ ' ' :: w) = [v, w] := by
  induction v with
  | nil =>
    cases w with
    | nil => exact absurd rfl hne
    | cons d more =>
      rw [List.nil_append, fields, fields_of_forall_not_isBlank hw]
      simp [hw d List.mem_cons_self, show isBlank ' ' = true from rfl]
  | cons c v ih =>
    rw [List.cons_append, fields, ih fun d hd => hv d (List.mem_cons_of_mem c hd)]
    simp [hv c List.mem_cons_self]

end Text

namespace Statement

/-- Without a semicolon there is no comment. -/
theorem dropComments_of_not_mem {s : List Char} (h : ';' ∉ s) : dropComments false s = s := by
  induction s with
  | nil => rfl
  | cons c rest ih =>
    have hrest : dropComments false rest = rest := ih fun hmem => h (List.mem_cons_of_mem c hmem)
    have hc : c ≠ ';' := fun he => h (he ▸ List.mem_cons_self)
    rw [dropComments, hrest]
    simp [hc]

/-- A text of word characters and a colon is a label. -/
theorem splitLabel?_word {word rest : List Char} (hne : word ≠ [])
    (hword : ∀ c ∈ word, Text.isWord c = true) :
    splitLabel? (word ++ ':' :: rest) = some (word, rest) := by
  have hcolon : Text.isWord ':' = false := by decide
  have htake : (word ++ ':' :: rest).takeWhile Text.isWord = word := by
    rw [List.takeWhile_append_of_pos hword]
    simp [hcolon]
  have hdrop : (word ++ ':' :: rest).dropWhile Text.isWord = ':' :: rest := by
    rw [List.dropWhile_append_of_pos hword]
    simp [hcolon]
  rw [splitLabel?, htake, hdrop]
  cases word with
  | nil => exact absurd rfl hne
  | cons c more => rfl

/-- Takes apart a line with a label and without comments. -/
theorem parse_labelled {label : String} {rest : List Char} (hne : label.toList ≠ [])
    (hword : ∀ c ∈ label.toList, Text.isWord c = true) (hrest : ';' ∉ rest)
    (hlast : ∀ c ∈ rest.getLast?, Text.isBlank c = false) {line : String}
    (hline : line.toList = label.toList ++ ':' :: rest) :
    parse line = ⟨some (Text.lower label), bodyOf (Text.trim rest)⟩ := by
  have hsemi : ';' ∉ line.toList := by
    rw [hline, List.mem_append, List.mem_cons]
    rintro (h | h | h)
    · exact absurd (hword _ h) (by decide)
    · cases h
    · exact hrest h
  have hhead : ∀ c ∈ line.toList.head?, Text.isWord c = true := by
    rw [hline]
    cases hl : label.toList with
    | nil => exact absurd hl hne
    | cons c more =>
      intro d hd
      obtain rfl : c = d := by simpa using hd
      exact hword c (hl ▸ List.mem_cons_self)
  have htrim : Text.trim line.toList = line.toList := by
    refine Text.trim_of_ends (fun c hc => Text.isBlank_of_isWord (hhead c hc)) ?_
    rw [hline, List.getLast?_append]
    cases rest with
    | nil =>
      intro c hc
      obtain rfl : ':' = c := by simpa using hc
      decide
    | cons d more => simpa using hlast
  have hdir : isDirective line.toList = false := by
    rw [isDirective, Bool.eq_false_iff]
    intro h
    rw [beq_iff_eq] at h
    exact absurd (hhead _ h) (by decide)
  rw [parse, dropComments_of_not_mem hsemi, htrim]
  simp only [hdir, Bool.false_eq_true, if_false]
  rw [hline, splitLabel?_word hne hword]
  simp only [String.ofList_toList]

/-- A line that starts with a period, does not end with a blank and has no comments is a directive
as it stands. -/
theorem parse_directive {line : String} (hdir : isDirective line.toList = true)
    (hlast : ∀ c ∈ line.toList.getLast?, Text.isBlank c = false) (hsemi : ';' ∉ line.toList) :
    parse line = ⟨none, .directive line⟩ := by
  have htrim : Text.trim line.toList = line.toList := by
    refine Text.trim_of_ends (fun c hc => ?_) hlast
    rw [isDirective, beq_iff_eq] at hdir
    obtain rfl : '.' = c := by simpa [hdir] using hc
    decide
  rw [parse, dropComments_of_not_mem hsemi, htrim]
  simp only [hdir, if_true, bodyOf, String.ofList_toList]

end Statement

/-- A directive of two words is a word and its argument. -/
theorem Command.parse_two_words {line : String} {word arg : List Char}
    (hline : line.toList = word ++ ' ' :: arg) (hword : ∀ c ∈ word, Text.isBlank c = false)
    (hne : arg ≠ []) (harg : ∀ c ∈ arg, Text.isBlank c = false) :
    (Command.parse line).word = String.ofList word ∧
      (Command.parse line).args = [String.ofList arg] := by
  rw [Command.parse, hline, Text.fields_two_words hword hne harg]
  exact ⟨rfl, rfl⟩

/-! ## Lines that name a source -/

/-- Whether a text can be the name of a source in a line. -/
structure IsName (name : String) : Prop where
  ne_nil : name.toList ≠ []
  not_blank : ∀ c ∈ name.toList, Text.isBlank c = false
  not_comment : ';' ∉ name.toList

/-- Whether a text can be a label. -/
structure IsLabel (label : String) : Prop where
  ne_nil : label.toList ≠ []
  isWord : ∀ c ∈ label.toList, Text.isWord c = true

/-- The directive for a source. -/
def sourceText (kind : SourceKind) (name : String) : String :=
  "." ++ kind.word ++ " " ++ name

/-- The line for a source, with a label or without. -/
def sourceLine : (label : Option String) → (kind : SourceKind) → (name : String) → String
  | none, kind, name => sourceText kind name
  | some label, kind, name => label ++ ": " ++ sourceText kind name

/-- The line for a label alone, empty without one. -/
def labelLine : (label : Option String) → String
  | none => ""
  | some label => label ++ ":"

/-- The source that a directive names. -/
def Command.source? (command : Command) : Option (SourceKind × String) :=
  match Directive.ofWord? (Text.lower command.word), command.args with
  | some (.source kind), name :: _ => some (kind, name)
  | _, _ => none

/-- The source that a line names. -/
def Statement.source? (statement : Statement) : Option (SourceKind × String) :=
  match statement.body with
  | .directive text => (Command.parse text).source?
  | _ => none

section Lines

variable {kind : SourceKind} {name : String}

/-- An inclusion is a dot, its word, a space and the name. -/
theorem toList_sourceText : (sourceText kind name).toList =
    ('.' :: kind.word.toList) ++ ' ' :: name.toList := by
  simp [sourceText, String.toList_append]

/-- An inclusion of a name ends in no blank. -/
theorem getLast?_sourceText (hname : IsName name) :
    ∀ c ∈ (sourceText kind name).toList.getLast?, Text.isBlank c = false := by
  intro c hc
  have hlast := List.getLast?_eq_some_getLast hname.ne_nil
  rw [toList_sourceText, List.getLast?_append, List.getLast?_cons, hlast] at hc
  obtain rfl : name.toList.getLast hname.ne_nil = c := by simpa using hc
  exact hname.not_blank _ (List.getLast_mem hname.ne_nil)

/-- An inclusion of a name has no comment. -/
theorem semicolon_not_mem_sourceText (hname : IsName name) :
    ';' ∉ (sourceText kind name).toList := by
  rw [toList_sourceText, List.mem_append]
  rintro (h | h)
  · cases kind <;> exact absurd h (by decide)
  · rcases List.mem_cons.1 h with h | h
    · cases h
    · exact hname.not_comment h

/-- An inclusion is a directive. -/
theorem isDirective_sourceText : Statement.isDirective (sourceText kind name).toList = true := by
  rw [toList_sourceText]; rfl

theorem trim_sourceText (hname : IsName name) :
    Text.trim (sourceText kind name).toList = (sourceText kind name).toList := by
  refine Text.trim_of_ends (fun c hc => ?_) (getLast?_sourceText hname)
  rw [toList_sourceText] at hc
  obtain rfl : '.' = c := by simpa using hc
  decide

theorem bodyOf_sourceText :
    Statement.bodyOf (sourceText kind name).toList = .directive (sourceText kind name) := by
  rw [Statement.bodyOf, if_pos isDirective_sourceText, String.ofList_toList]

/-- The line for a source is a directive behind its label. -/
theorem parse_sourceLine (hname : IsName name) {label : Option String}
    (hlabel : ∀ l ∈ label, IsLabel l) :
    Statement.parse (sourceLine label kind name) =
      ⟨label.map Text.lower, .directive (sourceText kind name)⟩ := by
  cases label with
  | none =>
    exact Statement.parse_directive isDirective_sourceText (getLast?_sourceText hname)
      (semicolon_not_mem_sourceText hname)
  | some label =>
    have h := hlabel label rfl
    have hline : (sourceLine (some label) kind name).toList =
        label.toList ++ ':' :: ' ' :: (sourceText kind name).toList := by
      simp [sourceLine, String.toList_append]
    have hsemi : ';' ∉ ' ' :: (sourceText kind name).toList := by
      simpa using semicolon_not_mem_sourceText hname
    have hlast : ∀ c ∈ (' ' :: (sourceText kind name).toList).getLast?, Text.isBlank c = false := by
      have hdir : ∀ c ∈ (sourceText kind name).toList.getLast?, Text.isBlank c = false :=
        getLast?_sourceText hname
      rw [toList_sourceText, List.cons_append] at hdir ⊢
      rwa [List.getLast?_cons_cons]
    rw [Statement.parse_labelled h.ne_nil h.isWord hsemi hlast hline]
    have htrim : Text.trim (' ' :: (sourceText kind name).toList) = (sourceText kind name).toList :=
      trim_sourceText hname
    rw [htrim, bodyOf_sourceText, Option.map_some]

/-- The line for a label alone holds nothing else. -/
theorem parse_labelLine {label : Option String} (hlabel : ∀ l ∈ label, IsLabel l) :
    Statement.parse (labelLine label) = ⟨label.map Text.lower, .nothing⟩ := by
  cases label with
  | none => decide
  | some label =>
    have h := hlabel label rfl
    have hline : (labelLine (some label)).toList = label.toList ++ ':' :: [] := by
      simp [labelLine, String.toList_append]
    exact Statement.parse_labelled h.ne_nil h.isWord (by simp) (by simp) hline

/-- The directive for a source is the word of its kind and the name. -/
theorem parse_sourceText (kind : SourceKind) (hname : IsName name) :
    (Command.parse (sourceText kind name)).word = "." ++ kind.word ∧
      (Command.parse (sourceText kind name)).args = [name] := by
  have hall : ('.' :: kind.word.toList).all (fun c => !Text.isBlank c) = true := by
    cases kind <;> decide
  have hword : ∀ c ∈ '.' :: kind.word.toList, Text.isBlank c = false := by
    intro c hc
    simpa using List.all_eq_true.1 hall c hc
  have hdot : String.ofList ('.' :: kind.word.toList) = "." ++ kind.word := by cases kind <;> decide
  have hparse := Command.parse_two_words toList_sourceText hword hname.ne_nil hname.not_blank
  rwa [hdot, String.ofList_toList] at hparse

/-- The word of an inclusion is that of its kind. -/
theorem ofWord?_source (kind : SourceKind) :
    Directive.ofWord? (Text.lower ("." ++ kind.word)) = some (.source kind) := by
  cases kind <;> decide

end Lines

/-! ## How deep sources are nested -/

namespace Library

/-- The text of the source that a line names, if there is such a source. -/
def provided (library : Library) (line : String) : Option String :=
  match (Statement.parse line).source? with
  | some (kind, name) => (library.source kind name).toOption
  | none => none

/-- Whether the sources that lines name go at most `depth` deep. -/
def NestsWithin (library : Library) : (depth : Nat) → (lines : List String) → Prop
  | 0, lines => ∀ line ∈ lines, library.provided line = none
  | depth + 1, lines => ∀ line ∈ lines, ∀ text ∈ library.provided line,
      library.NestsWithin depth (Text.lines text)

instance decidableNestsWithin (library : Library) :
    (depth : Nat) → (lines : List String) → Decidable (library.NestsWithin depth lines)
  | 0, lines => inferInstanceAs (Decidable (∀ line ∈ lines, library.provided line = none))
  | depth + 1, lines =>
    have := fun text => decidableNestsWithin library depth (Text.lines text)
    inferInstanceAs (Decidable (∀ line ∈ lines, ∀ text ∈ library.provided line,
      library.NestsWithin depth (Text.lines text)))

end Library

namespace Assembler

/-- A stopped assembler takes no lines. -/
theorem takeLines_of_aborted {f : String → Attempt Assembler (Option Record)} {a : Assembler}
    (h : a.aborted = true) (lines : List String) : takeLines f lines a = a := by
  cases lines with
  | nil => rfl
  | cons line rest => rw [takeLines, if_pos h]

/-- Lines are taken one after the other. -/
theorem takeLines_append (f : String → Attempt Assembler (Option Record))
    (before after : List String) (a : Assembler) :
    takeLines f (before ++ after) a = takeLines f after (takeLines f before a) := by
  induction before generalizing a with
  | nil => rfl
  | cons line rest ih =>
    rw [List.cons_append, takeLines, takeLines]
    split
    · rename_i h
      rw [takeLines_of_aborted h]
    · exact ih _

section

variable [Machine]

/-- Assembles lines in which sources may be included `limit` deep. -/
def assembleWithin (library : Option Library) (limit : Nat) (lines : List String) (a : Assembler) :
    Assembler :=
  takeLines (assembleLine library (assembleNested library limit)) lines a

theorem assembleLines_eq_assembleWithin (library : Option Library) :
    assembleLines library = assembleWithin library Machine.nesting := rfl

/-- The events of lines in which sources may be included `limit` deep. -/
def traceWithin (library : Option Library) (limit : Nat) (lines : List String) (a : Assembler) :
    List Event :=
  traceLines (lineEvents library (traceNested library limit)) lines a

/-- Lines are assembled by replaying their events. -/
theorem assembleWithin_eq_replay (library : Option Library) (limit : Nat) (lines : List String)
    (a : Assembler) :
    assembleWithin library limit lines a = replay (traceWithin library limit lines a) a :=
  takeLines_eq_replay (guarded_assembleNested library limit) lines a

/-- Lines whose events are the same have the same events together. -/
theorem traceLines_congr {f g : String → Assembler → List Event} {lines : List String}
    (h : ∀ line ∈ lines, ∀ a, f line a = g line a) (a : Assembler) :
    traceLines f lines a = traceLines g lines a := by
  induction lines generalizing a with
  | nil => rfl
  | cons line rest ih =>
    rw [traceLines, traceLines, h line List.mem_cons_self,
      ih fun line hline => h line (List.mem_cons_of_mem _ hline)]

/-- The events of a directive depend on the nested events by those of its source. -/
theorem directiveEvents_congr {library : Option Library}
    {events events' : List String → Assembler → List Event} {text : String} {a : Assembler}
    (h : ∀ kind name, (Command.parse text).source? = some (kind, name) →
      sourceEvents library events kind name a = sourceEvents library events' kind name a) :
    directiveEvents library events a text = directiveEvents library events' a text := by
  simp only [directiveEvents]
  rw [Command.source?] at h
  generalize Command.parse text = command at h ⊢
  generalize Directive.ofWord? (Text.lower command.word) = directive at h ⊢
  generalize command.args = args at h ⊢
  rcases directive with _ | directive
  · rfl
  · cases directive with
    | source kind =>
      rcases args with _ | ⟨name, more⟩
      · rfl
      · exact h kind name rfl
    | define => rcases args with _ | ⟨name, _ | ⟨value, more⟩⟩ <;> rfl
    | _ => rcases args with _ | ⟨token, more⟩ <;> rfl

/-- The events of a line only depend on the events of the source that it names. -/
theorem lineEvents_congr {library : Library} {events events' : List String → Assembler → List Event}
    {line : String} (h : ∀ text ∈ library.provided line, ∀ a,
      events (Text.lines text) a = events' (Text.lines text) a)
    (a : Assembler) :
    lineEvents (some library) events line a = lineEvents (some library) events' line a := by
  have hbody : ∀ b, bodyEvents (some library) events b (Statement.parse line).body =
      bodyEvents (some library) events' b (Statement.parse line).body := by
    intro b
    rw [Library.provided, Statement.source?] at h
    generalize (Statement.parse line).body = body at h ⊢
    rcases body with _ | text | text
    · rfl
    · rw [bodyEvents, bodyEvents]
      refine directiveEvents_congr fun kind name hsource => ?_
      simp only [hsource] at h
      rw [sourceEvents, sourceEvents]
      rcases hs : library.source kind name with fault | text
      · cases fault <;> rfl
      · exact h text (by rw [hs]; rfl) b
    · rfl
  rw [lineEvents, lineEvents, hbody]

/-- The limit does not matter as long as the sources do not go so deep. -/
theorem traceWithin_eq {library : Library} {depth : Nat} {lines : List String}
    (h : library.NestsWithin depth lines) {m n : Nat} (hm : depth ≤ m) (hn : depth ≤ n)
    (a : Assembler) :
    traceWithin (some library) m lines a = traceWithin (some library) n lines a := by
  induction depth generalizing lines m n a with
  | zero =>
    refine traceLines_congr (fun line hline => lineEvents_congr fun text htext => ?_) a
    rw [h line hline] at htext
    cases htext
  | succ depth ih =>
    refine traceLines_congr (fun line hline => lineEvents_congr fun text htext b => ?_) a
    obtain ⟨m, rfl⟩ := Nat.exists_eq_add_one.2 (Nat.lt_of_lt_of_le depth.succ_pos hm)
    obtain ⟨n, rfl⟩ := Nat.exists_eq_add_one.2 (Nat.lt_of_lt_of_le depth.succ_pos hn)
    exact ih (h line hline text htext) (Nat.le_of_succ_le_succ hm) (Nat.le_of_succ_le_succ hn) b

/-! ## Pasting -/

/-- Lines are assembled one after the other. -/
theorem assembleLines_append (library : Option Library) (before after : List String)
    (a : Assembler) : assembleLines library (before ++ after) a =
      assembleLines library after (assembleLines library before a) :=
  takeLines_append _ before after a

/-- A line is assembled by replaying its events. -/
theorem assembleLines_singleton {a : Assembler} (library : Option Library) (line : String)
    (h : a.aborted = false) : assembleLines library [line] a =
      replay (lineEvents library (traceNested library Machine.nesting) line a) a := by
  rw [assembleLines_eq_replay, trace, traceLines, traceLines, h, List.append_nil]
  rfl

/-- Lines do not revive a run that has stopped. -/
theorem aborted_of_assembleLines {library : Option Library} {lines : List String}
    {a : Assembler} (h : (assembleLines library lines a).aborted = false) :
    a.aborted = false := by
  by_contra haborted
  rw [Bool.not_eq_false] at haborted
  rw [assembleLines, takeLines_of_aborted haborted] at h
  rw [h] at haborted
  cases haborted

theorem assembleWithin_append (library : Option Library) (limit : Nat) (before after : List String)
    (a : Assembler) : assembleWithin library limit (before ++ after) a =
      assembleWithin library limit after (assembleWithin library limit before a) :=
  takeLines_append _ before after a

section Paste

variable {library : Library} {kind : SourceKind} {name text : String} {label : Option String}

/-- The events of the line for a source are those of its label and those of the lines of the
source. -/
theorem lineEvents_sourceLine (hname : IsName name) (hlabel : ∀ l ∈ label, IsLabel l)
    (hsource : library.source kind name = .ok text) (events : List String → Assembler → List Event)
    (a : Assembler) :
    lineEvents (some library) events (sourceLine label kind name) a =
      lineEvents (some library) events (labelLine label) a ++
        events (Text.lines text) (replay
          (lineEvents (some library) events (labelLine label) a) a) := by
  obtain ⟨hword, hargs⟩ := parse_sourceText kind hname
  simp only [lineEvents, parse_sourceLine hname hlabel, parse_labelLine hlabel, bodyEvents,
    List.append_nil, directiveEvents, hword, hargs, ofWord?_source, sourceEvents, hsource]
  rfl

/-- The line for a source does what its label and the lines of the source do. -/
theorem assembleWithin_sourceLine (hname : IsName name) (hlabel : ∀ l ∈ label, IsLabel l)
    (hsource : library.source kind name = .ok text) {depth limit : Nat}
    (hnests : library.NestsWithin depth (Text.lines text)) (hlimit : depth < limit)
    (a : Assembler) :
    assembleWithin (some library) limit [sourceLine label kind name] a =
      assembleWithin (some library) limit ([labelLine label] ++ Text.lines text) a := by
  cases haborted : a.aborted with
  | true =>
    rw [assembleWithin, assembleWithin, takeLines_of_aborted haborted,
      takeLines_of_aborted haborted]
  | false =>
    -- The source itself is one level down, so its lines run with one level less.
    obtain ⟨limit, rfl⟩ := Nat.exists_eq_add_one.2 (Nat.zero_lt_of_lt hlimit)
    simp only [assembleWithin_eq_replay, traceWithin, List.singleton_append, traceLines, haborted,
      Bool.false_eq_true, if_false, List.append_nil, lineEvents_sourceLine hname hlabel hsource,
      replay_append]
    exact congrArg (replay · _)
      (traceWithin_eq hnests (Nat.le_of_lt_succ hlimit) (Nat.le_of_lt hlimit) _)

/-- **Including a source is pasting it.**  With a label before the directive, the label stays. -/
theorem include_eq_paste (hname : IsName name) (hlabel : ∀ l ∈ label, IsLabel l)
    (hsource : library.source kind name = .ok text) {depth limit : Nat}
    (hnests : library.NestsWithin depth (Text.lines text)) (hlimit : depth < limit)
    (before after : List String) (a : Assembler) :
    assembleWithin (some library) limit (before ++ [sourceLine label kind name] ++ after) a =
      assembleWithin (some library) limit
        (before ++ [labelLine label] ++ Text.lines text ++ after) a := by
  have hline := assembleWithin_sourceLine hname hlabel hsource hnests hlimit
    (assembleWithin (some library) limit before a)
  rw [assembleWithin_append] at hline
  simp only [assembleWithin_append, hline]

end Paste

end

/-- A source that names another one, which in turn stops the run. -/
def twoLevels : Library :=
  .ofDocuments [] [("outer", ".data 1\nhere: .include inner\n.data 2"),
    ("inner", ".data here\n.width 0")] []

open UsualMachine in
theorem include_eq_paste_outer :
    assembleLines (some twoLevels) ([".org 8"] ++ ["start: .include outer"] ++ [".data 3"])
      (fresh none) =
      assembleLines (some twoLevels)
        ([".org 8"] ++ ["start:"] ++ [".data 1", "here: .include inner", ".data 2"] ++ [".data 3"])
        (fresh none) := by
  have hall : "outer".toList.all (fun c => !Text.isBlank c) = true := by decide
  have hname : IsName "outer" := by
    refine ⟨by decide, fun c hc => ?_, by decide⟩
    simpa using List.all_eq_true.1 hall c hc
  have hlabel : ∀ l ∈ some "start", IsLabel l := by
    rintro _ ⟨⟩
    exact ⟨by decide, List.all_eq_true.1 (by decide)⟩
  have hsource : twoLevels.source .includes "outer" =
      .ok ".data 1\nhere: .include inner\n.data 2" := rfl
  have hnests : twoLevels.NestsWithin 1 (Text.lines ".data 1\nhere: .include inner\n.data 2") := by
    decide +kernel
  have hlimit : 1 < Machine.nesting := by decide
  have hline : sourceLine (some "start") .includes "outer" = "start: .include outer" := by decide
  have hbare : labelLine (some "start") = "start:" := by decide
  have hlines : Text.lines ".data 1\nhere: .include inner\n.data 2" =
      [".data 1", "here: .include inner", ".data 2"] := by decide +kernel
  rw [assembleLines_eq_assembleWithin, ← hline, ← hbare, ← hlines]
  exact include_eq_paste hname hlabel hsource hnests hlimit [".org 8"] [".data 3"] (fresh none)

end Assembler

end Retarget
