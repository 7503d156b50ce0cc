import Retarget.Proofs.Lines
import Retarget.Session

/-!
# Sessions and programs

A session and a program are driven apart from each other.  A session answers one line at a time: it
refuses lines once it has stopped, and turns the fault of a line into a diagnostic by itself.  A
program takes its lines in a loop that ends at the first fatal one, and so do the sources that
either of them includes.

Typing lines that are no commands nevertheless is running the program of these lines
(`interactive_eq_batch`): the session ends with the assembler of the run, it goes on after every
line, and `:finish` shows what finishing the run gives.  The only thing that a machine may be too
small for is the text of the words that a line has just emitted; where there is room for it, the
words are shown and the session goes on (`Session.Answers`).
-/

namespace Retarget

/-! ## Records of lines -/

namespace Assembler

variable [Machine] {a b : Assembler} {record : Record}

/-- What holds of an assembler that has just noted a record and stored its words. -/
structure Gives (b : Assembler) (record : Record) : Prop where
  last : b.records.back? = some record
  behind : b.image.origin ≤ record.offset
  held : Capacity.fieldBits b.width = .ok b.width.toNat

theorem gives_of_emit (hs : a.Sound) {opcode nbits : Nat}
    (h : (emit opcode nbits).runFrom a = (.ok record, b)) : b.Gives record := by
  rcases hbits : Capacity.fieldBits a.width with fault | bits
  · rw [runFrom_emit_of_error hs.width_pos hbits] at h
    cases h
  · rw [runFrom_emit_of_ok hs.width_pos hbits] at h
    obtain ⟨u, c, heach, hrecord⟩ := Attempt.runFrom_bind_eq_ok.1 h
    cases hrecord
    have hnoted : { a with
        records := a.records.push { line := a.line, offset := a.ip, nbits := nbits } }.Sound :=
      hs.congr rfl rfl rfl rfl
    have hstored := stored_of_each hnoted
      ((splitWords bits (wordsFor nbits a.width.toNat) opcode).map fun (word : Nat) => (word : Int))
    rw [guarded_of_ok heach] at hstored
    obtain ⟨-, rfl⟩ := Capacity.fieldBits_eq_ok hbits
    refine ⟨?_, ?_, ?_⟩ <;> rw [hstored.frame]
    · exact Array.back?_push
    · exact hs.image_origin ▸ hs.origin_le
    · exact hbits

theorem gives_of_emitInstruction (hs : a.Sound) {instruction : Instruction}
    (h : (emitInstruction instruction).runFrom a = (.ok record, b)) : b.Gives record := by
  obtain ⟨diagnostics, -, hrun⟩ := runFrom_emitInstruction hs.width_pos instruction
  rw [hrun] at h
  refine gives_of_emit ?_ h
  exact hs.congr rfl rfl rfl rfl

theorem gives_of_assembleInstruction (hs : a.Sound) {text : String}
    (h : (assembleInstruction text).runFrom a = (.ok (some record), b)) : b.Gives record := by
  rw [assembleInstruction, Attempt.runFrom_bind_ok (Attempt.runFrom_get a)] at h
  rcases hactive : a.active with _ | set
  · rw [hactive] at h
    cases h
  · rw [hactive] at h
    obtain ⟨choice, c, hchoice, h⟩ := Attempt.runFrom_bind_eq_ok.1 h
    obtain ⟨-, rfl⟩ := Prod.mk.inj hchoice
    cases choice with
    | none last => cases h
    | built rule instruction =>
      obtain ⟨built, d, hemit, h⟩ := Attempt.runFrom_bind_eq_ok.1 h
      cases h
      exact gives_of_emitInstruction hs hemit

/-- A line that gives a record has noted it last and stored its words. -/
theorem gives_of_step {library : Option Library} (hs : a.Sound) {line : String}
    (h : (step library line).runFrom a = (.ok (some record), b)) : b.Gives record := by
  obtain ⟨text, -, hrun⟩ := instruction_of_assembleLine h
  exact gives_of_assembleInstruction (hs.begun line) hrun

end Assembler

/-! ## Typed lines -/

/-- Whether a reply shows the outcome of finishing: its session has the state that was reached, and
the words of this state are printed unless finishing or writing them failed. -/
structure Reply.Shows [Machine] (reply : Reply) (outcome : Except Fault Unit × Assembler) :
    Prop where
  state : reply.session.assembler = outcome.2
  result : reply.result = (do
    outcome.1
    let _ ← Session.imageText outcome.2
    .ok true)
  image : ∀ text, Printed.image text ∈ reply.printed ↔
    outcome.1 = .ok () ∧ Session.imageText outcome.2 = .ok text

namespace Session

section

variable [Machine] {library : Option Library}

/-- The words of a record that a line has given are shown, if there is room for their text. -/
theorem recordText_eq {a : Assembler} {record : Record} (hs : a.Sound) (h : a.Gives record) :
    recordText a record = Capacity.holdText (record.shownIn a.image).text := by
  have hwidth := hs.width_pos
  have hdigits : Literal.hexDigits a.image.width < Capacity.countBound :=
    hs.image_width ▸ Capacity.hexDigits_lt_of_fieldBits h.held
  rw [recordText, wordCount, if_neg (by omega)]
  change a.image.render record.offset _ = _
  rw [Image.render_eq h.behind hdigits, Record.shownIn, if_neg (Int.not_lt.2 h.behind),
    Image.textFrom,
    Record.wordsIn, Record.count, hs.image_width]

/-- Whether a typed line is a command to the session. -/
def IsCommand (line : String) : Prop :=
  (Text.trim line.toList).head? = some ':'

instance (line : String) : Decidable (IsCommand line) :=
  inferInstanceAs (Decidable (_ = _))

theorem handle_of_not_isCommand {line : String} (h : ¬ IsCommand line) (s : Session) :
    s.handle library line =
      if s.assembler.aborted then ⟨s, [.refusal], .ok true⟩ else s.assembleTyped library line := by
  rw [handle]
  split
  · rename_i rest htrim
    rw [IsCommand, htrim] at h
    exact absurd rfl h
  · rfl

/-- A typed line leaves the assembler that the line of a program leaves. -/
theorem assembler_assembleTyped (s : Session) (line : String) :
    (s.assembleTyped library line).session.assembler =
      Assembler.guarded (Assembler.step library line) s.assembler := by
  rw [assembleTyped, Assembler.guarded]
  rcases (Assembler.step library line).runFrom s.assembler with ⟨fault | record, a⟩
  · rfl
  · cases record with
    | none => rfl
    | some record =>
      show (showRecord _ record).session.assembler = a
      rw [showRecord]
      split <;> rfl

/-- The words that a typed line shows: those of the record that it gives, if it gives one. -/
def shown? (library : Option Library) (s : Session) (line : String) : Option String :=
  if s.assembler.aborted then none
  else
    match (Assembler.step library line).runFrom s.assembler with
    | (.ok (some record), a) => some (record.shownIn a.image).text
    | _ => none

/-- How a session answers a typed line: it goes on, unless there is no room for the words that the
line shows. -/
structure Answers (library : Option Library) (s : Session) (line : String) : Prop where
  goesOn : (∀ text ∈ s.shown? library line, text.length ≤ Machine.text) →
    (s.handle library line).result = .ok true
  noRoom : ∀ text ∈ s.shown? library line, Machine.text < text.length →
    (s.handle library line).result = .error (.excess .room)

/-- A line that shows nothing is answered if the session goes on after it. -/
theorem Answers.of_goesOn {s : Session} {line : String} (hshown : s.shown? library line = none)
    (h : (s.handle library line).result = .ok true) : s.Answers library line := by
  refine ⟨fun _ => h, fun text htext => ?_⟩
  rw [hshown] at htext
  cases htext

/-- **Every typed line is answered.** -/
theorem answers_of_not_isCommand {s : Session} (hs : s.assembler.WellFormed library) {line : String}
    (h : ¬ IsCommand line) : s.Answers library line := by
  have hhandle : s.handle library line = _ := handle_of_not_isCommand h s
  by_cases haborted : s.assembler.aborted = true
  · refine .of_goesOn (if_pos haborted) ?_
    rw [hhandle, if_pos haborted]
  rw [if_neg haborted] at hhandle
  have hstep := (hs.step line).1
  rcases hrun : (Assembler.step library line).runFrom s.assembler with ⟨fault | record, a⟩
  · refine .of_goesOn ?_ ?_
    · rw [shown?, if_neg haborted, hrun]
    · rw [hhandle, assembleTyped, hrun]
      rfl
  cases record with
  | none =>
    refine .of_goesOn ?_ ?_
    · rw [shown?, if_neg haborted, hrun]
    · rw [hhandle, assembleTyped, hrun]
      rfl
  | some record =>
    rw [hrun] at hstep
    have htext := recordText_eq hstep.toSound (Assembler.gives_of_step hs.toSound hrun)
    have hshown : s.shown? library line = some (record.shownIn a.image).text := by
      rw [shown?, if_neg haborted, hrun]
    have hanswer : s.handle library line = showRecord { s with assembler := a } record := by
      rw [hhandle, assembleTyped, hrun]
    rw [Capacity.holdText_eq] at htext
    constructor
    · intro hroom
      rw [if_pos (hroom _ hshown)] at htext
      rw [hanswer, showRecord, htext]
      rfl
    · intro text hmem hlong
      obtain rfl := Option.some.inj (hshown.symm.trans hmem)
      rw [if_neg (Nat.not_le.2 hlong)] at htext
      rw [hanswer, showRecord, htext]

/-- The session after typed lines. -/
def feed (library : Option Library) (lines : List String) (s : Session) : Session :=
  lines.foldl (fun s line => (s.handle library line).session) s

/-- **Typed lines are the lines of a program.**  By induction on them: once a line was fatal the
program is over, and the session refuses the others. -/
theorem assembler_feed {lines : List String} (h : ∀ line ∈ lines, ¬ IsCommand line) (s : Session) :
    (feed library lines s).assembler = Assembler.assembleLines library lines s.assembler := by
  induction lines generalizing s with
  | nil => rfl
  | cons line rest ih =>
    obtain ⟨hline, hrest⟩ := List.forall_mem_cons.1 h
    show (feed library rest (s.handle library line).session).assembler =
      Assembler.takeLines (Assembler.step library) (line :: rest) s.assembler
    rw [ih hrest, handle_of_not_isCommand hline, Assembler.takeLines]
    by_cases haborted : s.assembler.aborted = true
    · rw [if_pos haborted, if_pos haborted]
      exact Assembler.takeLines_of_aborted haborted rest
    · rw [if_neg haborted, if_neg haborted, assembler_assembleTyped]
      rfl

/-- Every line of a session is answered. -/
theorem answers_feed {before : List String} {line : String}
    (hbefore : ∀ other ∈ before, ¬ IsCommand other) (hline : ¬ IsCommand line) {s : Session}
    (hs : s.assembler.WellFormed library) : (feed library before s).Answers library line := by
  refine answers_of_not_isCommand ?_ hline
  rw [assembler_feed hbefore]
  exact hs.assembleLines before

omit [Machine] in
/-- Only the image itself is printed as an image. -/
theorem image_not_mem_diagnostics (s : Session) (text : String) :
    Printed.image text ∉ s.unreported.map Printed.diagnostic := by
  intro h
  obtain ⟨d, -, hd⟩ := List.mem_map.1 h
  cases hd

theorem shows_showImage (s : Session) :
    s.showImage.Shows (Assembler.finish.runFrom s.assembler) := by
  rw [showImage]
  rcases Assembler.finish.runFrom s.assembler with ⟨fault | u, a⟩
  · exact ⟨rfl, rfl, fun text => ⟨nofun, nofun⟩⟩
  · simp only
    rcases htext : imageText a with fault | shown
    · refine ⟨rfl, ?_, fun text => ?_⟩
      · simp only [htext]
        rfl
      · rw [htext]
        show _ ∈ [] ++ _ ++ [] ↔ _
        rw [List.nil_append, List.append_nil]
        exact ⟨fun h => absurd h (image_not_mem_diagnostics _ text), nofun⟩
    · refine ⟨rfl, ?_, fun text => ?_⟩
      · simp only [htext]
        rfl
      · rw [htext]
        show _ ∈ [] ++ _ ++ [Printed.image shown] ↔ _
        rw [List.nil_append, List.mem_append, List.mem_singleton]
        constructor
        · rintro (h | h)
          · exact absurd h (image_not_mem_diagnostics _ text)
          · cases h
            exact ⟨rfl, rfl⟩
        · rintro ⟨-, h⟩
          cases h
          exact .inr rfl

/-- **A session refines a program.**  Typing lines that are no commands leaves the assembler that
the program of these lines leaves, the session goes on after each of them as far as there is room
to show its words, and `:finish` then shows the outcome of finishing that program. -/
theorem interactive_eq_batch (library : Option Library) (active : Option InstructionSet)
    (lines : List String) (h : ∀ line ∈ lines, ¬ IsCommand line) :
    (feed library lines (fresh active)).assembler =
        Assembler.assembleLines library lines (Assembler.fresh active) ∧
      (∀ before line after, lines = before ++ line :: after →
        (feed library before (fresh active)).Answers library line) ∧
      ((feed library lines (fresh active)).handle library ":finish").Shows
        (Assembler.finish.runFrom
          (Assembler.assembleLines library lines (Assembler.fresh active))) := by
  have hstate : (feed library lines (fresh active)).assembler =
      Assembler.assembleLines library lines (Assembler.fresh active) :=
    assembler_feed h (fresh active)
  have hfinish : (feed library lines (fresh active)).handle library ":finish" =
      (feed library lines (fresh active)).showImage := rfl
  refine ⟨hstate, ?_, ?_⟩
  · rintro before line after rfl
    obtain ⟨hbefore, hrest⟩ := List.forall_mem_append.1 h
    exact answers_feed hbefore (List.forall_mem_cons.1 hrest).1
      (Assembler.wellFormed_fresh active)
  · rw [hfinish, ← hstate]
    exact shows_showImage _

end

open UsualMachine in
/-- A session without an instruction set stops at an instruction, and refuses the data behind it. -/
theorem interactive_eq_batch_refused :
    let lines := ["start: .data 5 start", " nop ", ".data 7"]
    let batch := Assembler.assembleLines none lines (Assembler.fresh none)
    (∀ line ∈ lines, ¬ IsCommand line) ∧ batch.aborted = true ∧
      (feed none lines (fresh none)).assembler = batch ∧
      (∀ before line after, lines = before ++ line :: after →
        (feed none before (fresh none)).Answers none line) ∧
      ((feed none lines (fresh none)).handle none ":finish").Shows
        (Assembler.finish.runFrom batch) := by
  intro lines batch
  have hlines : ∀ line ∈ lines, ¬ IsCommand line := by decide +kernel
  have hstopped : batch.aborted = true := by decide +kernel
  exact ⟨hlines, hstopped, interactive_eq_batch none none lines hlines⟩

end Session

end Retarget
