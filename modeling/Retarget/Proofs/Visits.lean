import Retarget.Proofs.EarlyFinish
import Retarget.Proofs.Lines
import Retarget.Proofs.Stopping

/-!
# The lines that a run takes

A run takes lines one after the other, those of an included source in the place of the line that
names it.  `Visit` is a line together with the assembler that takes it, and `visits` lists all lines
that calls take.  By itself a line does nothing but count itself, bind its label and make at most
one event (`Visit.doing`).

Between two lines nothing moves: a failure may be told there, or the program may be finished, and
neither changes addresses, symbols and what the records are about.  So the lines of a run are linked
to each other (`Course`), however deep sources are nested and whichever calls take the lines
(`course_afterCalls`).  What a line keeps is thereby kept by every run.
-/

namespace Retarget

open Assembler

/-! ## Lines by themselves -/

/-- A line that is taken, and the assembler that takes it. -/
structure Visit where
  line : String
  before : Assembler

/-- The text of the source that a line names, if there is such a source. -/
def provided? (library : Option Library) (line : String) : Option String :=
  library.bind fun lib => lib.provided line

/-- What an attempt comes to, without its value. -/
theorem runFrom_bind_unit {α : Type} (x : Attempt Assembler α) (a : Assembler) :
    (x >>= fun _ => pure ()).runFrom a = ((x.runFrom a).1.map fun _ => (), (x.runFrom a).2) := by
  rcases h : x.runFrom a with ⟨fault | v, b⟩
  · rw [Attempt.runFrom_bind_error h]
    rfl
  · rw [Attempt.runFrom_bind_ok h]
    rfl

theorem ok_of_map_unit {α : Type} {result : Except Fault α}
    (h : result.map (fun _ => ()) = .ok ()) : ∃ v, result = .ok v := by
  rcases result with fault | v
  · cases h
  · exact ⟨v, rfl⟩

theorem error_of_map_unit {α : Type} {result : Except Fault α} {fault : Fault}
    (h : result.map (fun _ => ()) = .error fault) : result = .error fault := by
  rcases result with other | v
  · exact congrArg Except.error (Except.error.inj h)
  · cases h

theorem source?_eq_some {command : Command} {kind : SourceKind} {name : String}
    (h : command.source? = some (kind, name)) :
    Directive.ofWord? (Text.lower command.word) = some (.source kind) ∧
      ∃ more, command.args = name :: more := by
  rw [Command.source?] at h
  split at h
  · rename_i hword hargs
    cases h
    exact ⟨hword, _, hargs⟩
  · cases h

theorem exists_of_provided {library : Option Library} {line text : String}
    (h : provided? library line = some text) :
    ∃ lib kind name directive, library = some lib ∧
      (Statement.parse line).body = .directive directive ∧
      Directive.ofWord? (Text.lower (Command.parse directive).word) = some (.source kind) ∧
      (∃ more, (Command.parse directive).args = name :: more) ∧
      lib.source kind name = .ok text := by
  obtain ⟨lib, hlibrary, hprovided⟩ := Option.bind_eq_some_iff.1 h
  rw [Library.provided] at hprovided
  rcases hsource : (Statement.parse line).source? with _ | ⟨kind, name⟩
  · rw [hsource] at hprovided
    cases hprovided
  · simp only [hsource] at hprovided
    rw [Statement.source?] at hsource
    rcases hbody : (Statement.parse line).body with _ | directive | instruction
    · rw [hbody] at hsource
      cases hsource
    · simp only [hbody] at hsource
      obtain ⟨hword, hargs⟩ := source?_eq_some hsource
      refine ⟨lib, kind, name, directive, hlibrary, rfl, hword, hargs, ?_⟩
      rcases hlib : lib.source kind name with fault | found
      · rw [hlib] at hprovided
        cases hprovided
      · rw [hlib] at hprovided
        cases hprovided
        rfl
    · rw [hbody] at hsource
      cases hsource

section

variable [Machine]

namespace Visit

/-- The assembler that meets what stands behind the label of a line. -/
def met (v : Visit) : Assembler :=
  v.before.begun v.line

/-- What a line comes to by itself: the lines of a source that it names are lines of their own. -/
def run (library : Option Library) (v : Visit) : Except Fault (Option Record) × Assembler :=
  (assembleLine library (fun _ => pure ()) v.line).runFrom v.before

/-- The assembler that a line leaves, whether it fails or not. -/
def after (library : Option Library) (v : Visit) : Assembler :=
  (v.run library).2

end Visit

section Events

open Attempt

variable {library : Option Library} {line text : String} {v : Visit}
  {nested nested' : List String → Assembler → List Event}

/-- The events of a line that names no source of the library do not depend on how sources are
assembled. -/
theorem bodyEvents_of_provided_none (h : provided? library line = none) (a : Assembler) :
    bodyEvents library nested a (Statement.parse line).body =
      bodyEvents library nested' a (Statement.parse line).body := by
  rcases hbody : (Statement.parse line).body with _ | text | text
  · rfl
  · rw [bodyEvents, bodyEvents]
    refine directiveEvents_congr fun kind name hsource => ?_
    rcases library with _ | lib
    · rfl
    · simp only [provided?, Option.bind_some, Library.provided, Statement.source?, hbody,
        hsource] at h
      rw [sourceEvents, sourceEvents]
      rcases hs : lib.source kind name with fault | text
      · cases fault <;> rfl
      · rw [hs] at h
        cases h
  · rfl

/-- The events of a line that names a source of the library are those of the source. -/
theorem bodyEvents_of_provided (h : provided? library line = some text) (a : Assembler) :
    bodyEvents library nested a (Statement.parse line).body = nested (Text.lines text) a := by
  obtain ⟨lib, kind, name, directive, rfl, hbody, hword, ⟨more, hargs⟩, hlib⟩ :=
    exists_of_provided h
  rw [hbody]
  simp only [bodyEvents, directiveEvents, hword, hargs, sourceEvents, hlib]

namespace Visit

/-- What a line can do behind its label: nothing that anybody could see, or one event. -/
inductive Doing (library : Option Library) (v : Visit) : Prop where
  | nothing (own : bodyEvents library (fun _ _ => []) v.met (Statement.parse v.line).body = [])
      (run : v.run library = (.ok none, v.met))
  | event {e : Event}
      (own : bodyEvents library (fun _ _ => []) v.met (Statement.parse v.line).body = [e])
      (run : e.attempt.runFrom v.met = ((v.run library).1.map fun _ => (), v.after library))

/-- A line that names a source of the library does nothing else. -/
theorem run_of_provided (h : provided? library v.line = some text) :
    v.run library = (.ok none, v.met) := by
  obtain ⟨lib, kind, name, directive, rfl, hbody, hword, ⟨more, hargs⟩, hlib⟩ :=
    exists_of_provided h
  rw [run, runFrom_assembleLine_directive hbody]
  simp only [obey, hword, hargs, loadSource, hlib]
  rfl

/-- **What a line does.** -/
theorem doing (library : Option Library) (v : Visit) : Doing library v := by
  rcases hprovided : provided? library v.line with _ | text
  · have hnone : ∀ lib ∈ library, lib.provided v.line = none := by
      rintro lib ⟨⟩
      exact hprovided
    by_cases hbody : (Statement.parse v.line).body = .nothing
    · refine .nothing ?_ (runFrom_assembleLine_nothing hbody)
      rw [hbody, bodyEvents]
    · obtain ⟨e, he, hrun⟩ := exists_event hnone hbody
      refine .event he (hrun.symm.trans ?_)
      exact runFrom_bind_unit _ _
  · exact .nothing (bodyEvents_of_provided hprovided _) (run_of_provided hprovided)

end Visit

end Events

/-! ## All lines of a run -/

namespace Assembler

/-- The lines that are taken for a line: the line itself and those of the source that it names, of
which `nested` gives all. -/
def visitLine (library : Option Library) (nested : List String → Assembler → List Visit)
    (line : String) (a : Assembler) : List Visit :=
  ⟨line, a⟩ ::
    (provided? library line).elim [] fun text => nested (Text.lines text) (a.begun line)

/-- The lines that are taken for lines in order, until assembly has stopped. -/
def visitLines (visit : String → Assembler → List Visit)
    (step : String → Attempt Assembler (Option Record)) : List String → Assembler → List Visit
  | [], _ => []
  | line :: rest, a =>
    if a.aborted then []
    else visit line a ++ visitLines visit step rest (guarded (step line) a)

/-- The lines that are taken for an included source, in which sources may be included `depth`
deep. -/
def visitNested (library : Option Library) : (depth : Nat) → List String → Assembler → List Visit
  | 0, _, _ => []
  | depth + 1, lines, a =>
    visitLines (visitLine library (visitNested library depth))
      (assembleLine library (assembleNested library depth)) lines a

/-- The lines that are taken for a line of a program. -/
def visitStep (library : Option Library) : String → Assembler → List Visit :=
  visitLine library (visitNested library Machine.nesting)

/-- The lines that a call takes. -/
def Call.visits (library : Option Library) (a : Assembler) : Call → List Visit
  | .line text => visitStep library text a
  | .lines texts => visitLines (visitStep library) (step library) texts a
  | .assemble text => visitLines (visitStep library) (step library) (Text.lines text) a
  | .finish => []

/-- The lines that calls take. -/
def visits (library : Option Library) : List Call → Assembler → List Visit
  | [], _ => []
  | call :: rest, a =>
    call.visits library a ++ visits library rest ((call.attempt library).runFrom a).2

end Assembler

end

/-! ## What does not move anything -/

/-- A record without its text. -/
def Record.bare (record : Record) : Record :=
  { record with text := "" }

namespace Assembler

open Attempt

/-- Whether two assemblers agree on addresses, symbols and what the records are about.  They may
differ in what has been told, in words and in what waits for symbols. -/
structure Agrees (a b : Assembler) : Prop where
  ip : b.ip = a.ip
  origin : b.origin = a.origin
  width : b.width = a.width
  symbols : b.symbols = a.symbols
  records : b.records.toList.map Record.bare = a.records.toList.map Record.bare

variable {library : Option Library} {a b c : Assembler}

theorem Agrees.refl (a : Assembler) : a.Agrees a :=
  ⟨rfl, rfl, rfl, rfl, rfl⟩

theorem Agrees.symm (h : a.Agrees b) : b.Agrees a :=
  ⟨h.ip.symm, h.origin.symm, h.width.symm, h.symbols.symm, h.records.symm⟩

theorem Agrees.trans (h : a.Agrees b) (h' : b.Agrees c) : a.Agrees c :=
  ⟨h'.ip.trans h.ip, h'.origin.trans h.origin, h'.width.trans h.width, h'.symbols.trans h.symbols,
    h'.records.trans h.records⟩

theorem agrees_stop (a : Assembler) (notice : Notice) (line : Option Int) :
    a.Agrees (a.stop notice line) :=
  ⟨rfl, rfl, rfl, rfl, rfl⟩

theorem agrees_warnAll (h : a.Agrees b) (reports : List Report) :
    a.Agrees (b.warnAll reports) := by
  rw [warnAll_eq]
  exact h.trans ⟨rfl, rfl, rfl, rfl, rfl⟩

/-- Telling of a failure moves nothing. -/
theorem agrees_guarded {α : Type} (x : Attempt Assembler α) (a : Assembler) :
    (x.runFrom a).2.Agrees (guarded x a) := by
  rcases h : x.runFrom a with ⟨fault | v, b⟩
  · rw [guarded_of_error h]
    exact ⟨rfl, rfl, rfl, rfl, rfl⟩
  · rw [guarded_of_ok h]
    exact .refl b

variable [Machine]

/-- Rendering a record changes its text only. -/
theorem bare_of_render {image : Image} {tell : Bool} {record rendered : Record}
    {report : Option Report} (h : record.render image tell = .ok (rendered, report)) :
    rendered.bare = record.bare := by
  rw [Record.render] at h
  split at h
  · split at h
    · rcases hshown : (Notice.belowOrigin record.offset image.origin).shown with fault | notice
      · rw [hshown] at h
        cases h
      · rw [hshown] at h
        cases h
        rfl
    · cases h
      rfl
  · rcases hcount : wordCount record.nbits image.width with fault | n
    · rw [hcount] at h
      cases h
    · rw [hcount] at h
      change (image.render record.offset n >>= fun text =>
        Except.ok (({ record with text } : Record), (none : Option Report))) = _ at h
      rcases htext : image.render record.offset n with fault | text
      · rw [htext] at h
        cases h
      · rw [htext] at h
        cases h
        rfl

/-- Rendering changes the texts of records only, even where it fails. -/
theorem map_bare_renderAll (image : Image) (tell : Bool) (records : List Record) :
    (Record.renderAll image tell records).2.1.map Record.bare = records.map Record.bare := by
  induction records with
  | nil => rfl
  | cons record rest ih =>
    rw [Record.renderAll]
    rcases hrender : record.render image tell with fault | ⟨rendered, report⟩
    · rfl
    · exact congrArg₂ List.cons (bare_of_render hrender) ih

/-- Finishing moves nothing, even where it fails. -/
theorem agrees_finish (a : Assembler) : a.Agrees (finish.runFrom a).2 := by
  have hresolve : Keeps a.Agrees resolveFixups := by
    intro t ht
    rw [runFrom_resolveFixups]
    refine agrees_warnAll ?_ _
    exact ht.trans ⟨rfl, rfl, rfl, rfl, rfl⟩
  have hrender : Keeps a.Agrees renderRecords := by
    intro t ht
    rw [runFrom_renderRecords]
    refine agrees_warnAll ?_ _
    exact ht.trans ⟨rfl, rfl, rfl, rfl, map_bare_renderAll _ _ _⟩
  have hfinish : Keeps a.Agrees finish := by
    refine .bind hresolve fun _ => .bind hrender fun _ t ht => ?_
    rw [runFrom_bind_ok (runFrom_get t)]
    rcases t.image.pad t.codelen with fault | image
    · exact ht
    · exact ht.trans ⟨rfl, rfl, rfl, rfl, rfl⟩
  exact hfinish a (.refl a)

/-! ## The course of a run -/

/-- A course of lines from one assembler to another: each line is taken by an assembler that agrees
with the one that the line before it left. -/
inductive Course (library : Option Library) : Assembler → List Visit → Assembler → Prop where
  | done {a b : Assembler} (same : a.Agrees b) : Course library a [] b
  | take {a b : Assembler} {v : Visit} {rest : List Visit} (same : a.Agrees v.before)
      (sound : v.before.Sound) (later : Course library (v.after library) rest b) :
      Course library a (v :: rest) b

namespace Course

variable {vs ws : List Visit}

theorem after_agrees (h : a.Agrees b) (hcourse : Course library b vs c) :
    Course library a vs c := by
  cases hcourse with
  | done same => exact .done (h.trans same)
  | take same sound later => exact .take (h.trans same) sound later

theorem append (h : Course library a vs b) (h' : Course library b ws c) :
    Course library a (vs ++ ws) c := by
  induction h with
  | done same => exact h'.after_agrees same
  | take same sound _ ih => exact .take same sound (ih h')

theorem before_agrees (hcourse : Course library a vs b) (h : b.Agrees c) :
    Course library a vs c := by
  have happend := hcourse.append (.done h)
  rwa [List.append_nil] at happend

end Course

/-- What a line leaves agrees with what its events leave. -/
theorem agrees_after (library : Option Library) (v : Visit) :
    (v.after library).Agrees
      (replay (bodyEvents library (fun _ _ => []) v.met (Statement.parse v.line).body) v.met) := by
  have hguarded := agrees_guarded (assembleLine library (fun _ => pure ()) v.line) v.before
  rw [guarded_assembleLine (fun _ _ => (replay_nil _).symm), lineEvents, replay_append,
    replay_headEvents] at hguarded
  exact hguarded

/-- A line, and the lines of the source that it names. -/
theorem course_visitLine {events : List String → Assembler → List Event}
    {visit : List String → Assembler → List Visit}
    (hvisit : ∀ lines b, b.Sound → Course library b (visit lines b) (replay (events lines b) b))
    (line : String) (hs : a.Sound) :
    Course library a (visitLine library visit line a)
      (replay (lineEvents library events line a) a) := by
  have hafter := agrees_after library ⟨line, a⟩
  rw [lineEvents, replay_append, replay_headEvents, visitLine]
  -- The line by itself has no events of a source, so the two cases differ in who makes them.
  rcases hprovided : provided? library line with _ | text
  · rw [bodyEvents_of_provided_none hprovided]
    exact .take (.refl a) hs (.done hafter)
  · rw [bodyEvents_of_provided hprovided] at hafter ⊢
    exact .take (.refl a) hs ((hvisit _ _ (hs.begun line)).after_agrees hafter)

/-- Lines in order. -/
theorem course_visitLines {step : String → Attempt Assembler (Option Record)}
    {events : String → Assembler → List Event} {visit : String → Assembler → List Visit}
    (hstep : ∀ line b, guarded (step line) b = replay (events line b) b)
    (hvisit : ∀ line b, b.Sound → Course library b (visit line b) (replay (events line b) b))
    (lines : List String) (hs : a.Sound) :
    Course library a (visitLines visit step lines a) (replay (traceLines events lines a) a) := by
  induction lines generalizing a with
  | nil => exact .done (.refl a)
  | cons line rest ih =>
    rw [visitLines, traceLines]
    split
    · exact .done (.refl a)
    · rw [replay_append, hstep]
      exact (hvisit line a hs).append (ih (hs.replay _))

/-- The lines of an included source.  A source that is nested too deep only stops assembly. -/
theorem course_visitNested (library : Option Library) (depth : Nat) (lines : List String)
    {a : Assembler} (hs : a.Sound) :
    Course library a (visitNested library depth lines a)
      (replay (traceNested library depth lines a) a) := by
  induction depth generalizing lines a with
  | zero => exact .done (agrees_stop a _ _)
  | succ depth ih =>
    exact course_visitLines (guarded_assembleLine (guarded_assembleNested library depth))
      (fun line b hb => course_visitLine (fun lines b hb => ih lines hb) line hb) lines hs

/-- A line of a program. -/
theorem course_visitStep (line : String) (hs : a.Sound) :
    Course library a (visitStep library line a) (guarded (step library line) a) := by
  rw [step, guarded_assembleLine (guarded_assembleNested library Machine.nesting)]
  exact course_visitLine
    (fun lines b hb => course_visitNested library Machine.nesting lines hb) line hs

/-- The lines of a program. -/
theorem course_assembleLines (lines : List String) (hs : a.Sound) :
    Course library a (visitLines (visitStep library) (step library) lines a)
      (assembleLines library lines a) := by
  rw [assembleLines_eq_replay]
  refine course_visitLines (fun line b => ?_) (fun line b hb => ?_) lines hs
  · rw [step, guarded_assembleLine (guarded_assembleNested library Machine.nesting)]
  · rw [← guarded_assembleLine (guarded_assembleNested library Machine.nesting)]
    exact course_visitStep line hb

theorem course_call (call : Call) (hs : a.Sound) :
    Course library a (call.visits library a) ((call.attempt library).runFrom a).2 := by
  cases call with
  | line text =>
    -- A call of one line leaves its failure to the caller, a program tells of it.
    rw [Call.attempt, runFrom_bind_unit]
    exact (course_visitStep text hs).before_agrees (agrees_guarded _ a).symm
  | lines texts => exact course_assembleLines texts hs
  | assemble text =>
    rw [Call.attempt, assemble, runFrom_bind_ok (runFrom_modify _ _)]
    exact (course_assembleLines _ hs).before_agrees (agrees_finish _)
  | finish => exact .done (agrees_finish a)

/-- **The lines of a run follow each other.** -/
theorem course_afterCalls (ha : a.WellFormed library) (calls : List Call) :
    Course library a (visits library calls a) (afterCalls library calls a) := by
  induction calls generalizing a with
  | nil => exact .done (.refl a)
  | cons call rest ih =>
    exact (course_call call ha.toSound).append (ih (ha.call call).1)

end Assembler

end Retarget
