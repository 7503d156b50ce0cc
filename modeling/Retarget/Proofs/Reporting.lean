import Retarget.Proofs.Interactive
import Retarget.Proofs.Stopping

/-!
# What a session reports

A session counts how many diagnostics of its assembler it has printed, and prints those behind the
count after each line and after `:finish`.  Nothing else tells a diagnostic: a line that fails puts
its fault among the diagnostics, and the other commands leave the assembler alone.

So each answer prints exactly the diagnostics that its line has added (`tellsAll_handle`), as long
as no answer is cut short by a failure.  What has been printed since the last reset is the list of
the assembler's diagnostics (`told_sinceReset`, `told_once`).
-/

namespace Retarget

/-- The diagnostic that is printed, if it is one. -/
def Printed.diagnostic? : Printed → Option Diagnostic
  | .diagnostic d => some d
  | _ => none

/-- The diagnostics among what is printed. -/
def Printed.told (printed : List Printed) : List Diagnostic :=
  printed.filterMap Printed.diagnostic?

namespace Printed

@[simp] theorem told_append (before after : List Printed) :
    told (before ++ after) = told before ++ told after :=
  List.filterMap_append

@[simp] theorem told_map_diagnostic (diagnostics : List Diagnostic) :
    told (diagnostics.map Printed.diagnostic) = diagnostics := by
  rw [told, List.filterMap_map]
  exact List.filterMap_some

end Printed

namespace Session

section

variable [Machine]

variable {library : Option Library} {s : Session}

/-! ## One line -/

/-- Whether all diagnostics of a session have been printed. -/
def UpToDate (s : Session) : Prop :=
  s.reported = s.assembler.diagnostics.size

/-- Whether a reply prints exactly the diagnostics that are new in its session. -/
structure TellsAll (s : Session) (reply : Reply) : Prop where
  told : reply.session.assembler.diagnostics.toList =
    s.assembler.diagnostics.toList ++ Printed.told reply.printed
  upToDate : reply.session.UpToDate

/-- The word of a command. -/
def commandName (line : String) : String :=
  Text.lower (String.ofList (Text.trim (Text.trim line.toList).tail))

/-- Whether a typed line resets the session. -/
def IsReset (line : String) : Prop :=
  IsCommand line ∧ commandName line = "reset"

instance (line : String) : Decidable (IsReset line) :=
  inferInstanceAs (Decidable (_ ∧ _))

/-- A command is handled by its name. -/
theorem handle_of_isCommand {line : String} (h : IsCommand line) (s : Session) :
    s.handle library line = s.command (commandName line) := by
  obtain ⟨rest, hrest⟩ : ∃ rest, Text.trim line.toList = ':' :: rest :=
    List.head?_eq_some_iff.1 h
  rw [handle, commandName, hrest]
  rfl

omit [Machine] in
/-- A reply that leaves the session alone and tells nothing. -/
theorem TellsAll.of_silent (hs : s.UpToDate) {printed : List Printed}
    (hprinted : Printed.told printed = []) (result : Except Fault Bool) :
    TellsAll s ⟨s, printed, result⟩ := by
  refine ⟨?_, hs⟩
  rw [hprinted, List.append_nil]

omit [Machine] in
/-- Diagnostics that are added are the ones that are printed next. -/
theorem TellsAll.of_reporting (hs : s.UpToDate) {a : Assembler}
    (ha : s.assembler.diagnostics.toList <+: a.diagnostics.toList) {before after : List Printed}
    (hbefore : Printed.told before = []) (hafter : Printed.told after = [])
    (result : Except Fault Bool) :
    TellsAll s ({ s with assembler := a }.reporting before after result) := by
  obtain ⟨added, hadded⟩ := ha
  have hcount : s.reported = s.assembler.diagnostics.toList.length := hs
  have hnew : unreported { s with assembler := a } = added := by
    show a.diagnostics.toList.drop s.reported = added
    rw [← hadded, hcount, List.drop_left]
  refine ⟨?_, rfl⟩
  show a.diagnostics.toList = _ ++ Printed.told (before ++ _ ++ after)
  rw [Printed.told_append, Printed.told_append, hbefore, hafter, hnew, Printed.told_map_diagnostic,
    List.nil_append, List.append_nil, hadded]

/-- A line adds to what has been told before it. -/
theorem prefix_guarded_step (line : String) (a : Assembler) :
    a.diagnostics.toList <+:
      (Assembler.guarded (Assembler.step library line) a).diagnostics.toList := by
  rw [Assembler.step, Assembler.guarded_assembleLine
    (Assembler.guarded_assembleNested library Machine.nesting)]
  exact Assembler.prefix_replay _ a

/-- Assembling a typed line tells all that is new. -/
theorem tellsAll_assembleTyped (hs : s.UpToDate) {line : String}
    (hok : (s.assembleTyped library line).result.isOk = true) :
    TellsAll s (s.assembleTyped library line) := by
  have hprefix : s.assembler.diagnostics.toList <+:
      (Assembler.guarded (Assembler.step library line) s.assembler).diagnostics.toList :=
    prefix_guarded_step line s.assembler
  rw [assembleTyped] at hok ⊢
  rcases hstep : (Assembler.step library line).runFrom s.assembler with ⟨fault | record, a⟩
  · rw [Assembler.guarded_of_error hstep] at hprefix
    exact .of_reporting hs hprefix rfl rfl _
  · rw [Assembler.guarded_of_ok hstep] at hprefix
    rw [hstep] at hok
    cases record with
    | none => exact .of_reporting hs hprefix rfl rfl _
    | some record =>
      -- The diagnostics come behind the words of the record, so they are printed if these have a
      -- text.
      change (showRecord _ record).result.isOk = true at hok
      show TellsAll s (showRecord _ record)
      rw [showRecord] at hok ⊢
      rcases htext : recordText a record with fault | text
      · simp only [htext] at hok
        cases hok
      · exact .of_reporting hs hprefix rfl rfl _

/-- Showing the image tells all that is new. -/
theorem tellsAll_showImage (hs : s.UpToDate) (hok : s.showImage.result.isOk = true) :
    TellsAll s s.showImage := by
  have hprefix := (Assembler.warns_finish s.assembler).isPrefix
  rw [showImage] at hok ⊢
  rcases hfinish : Assembler.finish.runFrom s.assembler with ⟨fault | u, a⟩
  · rw [hfinish] at hok
    cases hok
  · rw [hfinish] at hprefix
    simp only
    rcases imageText a with fault | text
    · exact .of_reporting hs hprefix rfl rfl _
    · exact .of_reporting hs hprefix rfl rfl _

omit [Machine] in
/-- No symbol is taken for a diagnostic. -/
theorem told_showSymbols (s : Session) : Printed.told s.showSymbols.printed = [] := by
  rw [Printed.told, List.filterMap_eq_nil_iff]
  intro p hp
  rcases List.mem_append.1 hp with hp | hp
  · split at hp
    · rw [List.mem_singleton.1 hp]
      rfl
    · cases hp
  · obtain ⟨entry, -, rfl⟩ := List.mem_map.1 hp
    rfl

/-- A command other than a reset tells all that is new. -/
theorem tellsAll_command (hs : s.UpToDate) {name : String} (hname : name ≠ "reset")
    (hok : (s.command name).result.isOk = true) : TellsAll s (s.command name) := by
  rw [command] at hok ⊢
  split
  · exact .of_silent hs rfl _
  split
  · exact .of_silent hs rfl _
  split
  · rcases stateLine s.assembler with fault | text
    · exact .of_silent hs rfl _
    · exact .of_silent hs rfl _
  split
  · exact .of_silent hs (told_showSymbols s) _
  split
  · rename_i hquit hhelp hstate hsymbols hfinish
    rw [if_neg hquit, if_neg hhelp, if_neg hstate, if_neg hsymbols, if_pos hfinish] at hok
    exact tellsAll_showImage hs hok
  · exact .of_silent hs rfl _

/-- **Each answer prints the diagnostics that its line has added.** -/
theorem tellsAll_handle (hs : s.UpToDate) {line : String} (hline : ¬ IsReset line)
    (hok : (s.handle library line).result.isOk = true) : TellsAll s (s.handle library line) := by
  by_cases hcommand : IsCommand line
  · rw [handle_of_isCommand hcommand] at hok ⊢
    exact tellsAll_command hs (fun hname => hline ⟨hcommand, hname⟩) hok
  · rw [handle_of_not_isCommand hcommand] at hok ⊢
    split
    · exact .of_silent hs rfl _
    · rename_i hrunning
      rw [if_neg hrunning] at hok
      exact tellsAll_assembleTyped hs hok

/-- A reset starts afresh and keeps the active instructions. -/
theorem handle_of_isReset {line : String} (hline : IsReset line) (s : Session) :
    s.handle library line = ⟨fresh s.assembler.active, [.reset], .ok true⟩ := by
  rw [handle_of_isCommand hline.1, hline.2]
  rfl

/-! ## Many lines -/

/-- The replies to typed lines, one after the other. -/
def replies (library : Option Library) : List String → Session → List Reply
  | [], _ => []
  | line :: rest, s =>
    s.handle library line :: replies library rest (s.handle library line).session

/-- A last line is replied to last. -/
theorem replies_concat (lines : List String) (line : String) (s : Session) :
    replies library (lines ++ [line]) s =
      replies library lines s ++ [(feed library lines s).handle library line] := by
  induction lines generalizing s with
  | nil => rfl
  | cons first rest ih => exact congrArg (_ :: ·) (ih _)

/-- A last line is handled where the others have led. -/
theorem feed_concat (lines : List String) (line : String) (s : Session) :
    feed library (lines ++ [line]) s = ((feed library lines s).handle library line).session := by
  rw [feed, List.foldl_append]
  rfl

/-- Every line is replied to. -/
theorem length_replies (lines : List String) (s : Session) :
    (replies library lines s).length = lines.length := by
  induction lines generalizing s with
  | nil => rfl
  | cons first rest ih => exact congrArg (· + 1) (ih _)

/-- What has been printed since the last reset, or since the start. -/
def sinceReset (library : Option Library) (lines : List String) (s : Session) : List Printed :=
  ((lines.zip (replies library lines s)).rtakeWhile fun typed => ¬ IsReset typed.1).flatMap
    fun typed => typed.2.printed

/-- Nothing is told since a reset that comes last. -/
theorem sinceReset_concat_of_isReset (lines : List String) {line : String} (h : IsReset line)
    (s : Session) : sinceReset library (lines ++ [line]) s = [] := by
  rw [sinceReset, replies_concat, List.zip_append (length_replies lines s).symm, List.zip_cons_cons,
    List.zip_nil_left, List.rtakeWhile_concat_neg _ _ _ (by simpa using h), List.flatMap_nil]

/-- A line that is no reset adds what its reply tells. -/
theorem sinceReset_concat (lines : List String) {line : String} (h : ¬ IsReset line) (s : Session) :
    sinceReset library (lines ++ [line]) s =
      sinceReset library lines s ++ ((feed library lines s).handle library line).printed := by
  rw [sinceReset, replies_concat, List.zip_append (length_replies lines s).symm, List.zip_cons_cons,
    List.zip_nil_left, List.rtakeWhile_concat_pos _ _ _ (by simpa using h), List.flatMap_append,
    List.flatMap_singleton, sinceReset]

omit [Machine] in
/-- A fresh session has told all that there is. -/
theorem upToDate_fresh (active : Option InstructionSet) : (fresh active).UpToDate := by
  cases active <;> rfl

/-- By induction on the lines, from the last one: it adds what it prints, or it starts anew. -/
theorem told_sinceReset {lines : List String} (active : Option InstructionSet)
    (h : ∀ reply ∈ replies library lines (fresh active), reply.result.isOk = true) :
    (feed library lines (fresh active)).UpToDate ∧
      Printed.told (sinceReset library lines (fresh active)) =
        (feed library lines (fresh active)).assembler.diagnostics.toList := by
  induction lines using List.reverseRecOn with
  | nil =>
    refine ⟨upToDate_fresh active, ?_⟩
    cases active <;> rfl
  | append_singleton lines line ih =>
    rw [replies_concat, List.forall_mem_append, List.forall_mem_singleton] at h
    obtain ⟨hupToDate, htold⟩ := ih h.1
    rw [feed_concat]
    by_cases hline : IsReset line
    · rw [sinceReset_concat_of_isReset lines hline, handle_of_isReset hline]
      refine ⟨upToDate_fresh _, ?_⟩
      -- Nothing has been printed for the new assembler, and it has no diagnostics.
      show [] = (Assembler.fresh _).diagnostics.toList
      cases (feed library lines (fresh active)).assembler.active <;> rfl
    · have htells := tellsAll_handle hupToDate hline h.2
      refine ⟨htells.upToDate, ?_⟩
      rw [sinceReset_concat lines hline, Printed.told_append, htold, htells.told]

/-- **A session prints every diagnostic once.**  As long as no answer fails, the diagnostics printed
since the last reset are those of the assembler, in their order; each is labelled an error if it is
fatal and else a warning.  Once assembly has stopped, a line that is no command prints none of them
and changes nothing. -/
theorem told_once (library : Option Library) (active : Option InstructionSet) (lines : List String)
    (h : ∀ reply ∈ replies library lines (fresh active), reply.result.isOk = true) :
    Printed.told (sinceReset library lines (fresh active)) =
        (feed library lines (fresh active)).assembler.diagnostics.toList ∧
      (∀ d : Diagnostic, (Printed.diagnostic d).text = "line " ++ Radix.decimal d.line ++ ": " ++
        (if d.fatal then "error" else "warning") ++ ": " ++ d.message ++ "\n") ∧
      ∀ line, ¬ IsCommand line → (feed library lines (fresh active)).assembler.aborted = true →
        (feed library lines (fresh active)).handle library line =
          ⟨feed library lines (fresh active), [.refusal], .ok true⟩ := by
  refine ⟨(told_sinceReset active h).2, fun d => rfl, fun line hline haborted => ?_⟩
  rw [handle_of_not_isCommand hline, if_pos haborted]

end

open UsualMachine in
/-- A warning that is forgotten by a reset, then one of `:finish`, a fatal line and a refused
one. -/
theorem told_once_after_reset :
    let lines := [".bogus", " : Reset ", ".data missing", ":finish", "nop", ".data 1"]
    (feed none lines (fresh none)).assembler.aborted = true ∧
      (feed none lines (fresh none)).assembler.diagnostics.size = 2 ∧
      (∀ reply ∈ replies none lines (fresh none), reply.result.isOk = true) ∧
      Printed.told (sinceReset none lines (fresh none)) =
        (feed none lines (fresh none)).assembler.diagnostics.toList ∧
      (feed none lines (fresh none)).handle none ".data 2" =
        ⟨feed none lines (fresh none), [.refusal], .ok true⟩ := by
  intro lines
  have haborted : (feed none lines (fresh none)).assembler.aborted = true := by decide +kernel
  have hsize : (feed none lines (fresh none)).assembler.diagnostics.size = 2 := by decide +kernel
  have hall : (replies none lines (fresh none)).all (fun reply => reply.result.isOk) = true := by
    decide +kernel
  have hok : ∀ reply ∈ replies none lines (fresh none), reply.result.isOk = true :=
    List.all_eq_true.1 hall
  have hline : ¬ IsCommand ".data 2" := by decide +kernel
  obtain ⟨htold, -, hrefused⟩ := told_once none none lines hok
  exact ⟨haborted, hsize, hok, htold, hrefused ".data 2" hline haborted⟩

end Session

end Retarget
