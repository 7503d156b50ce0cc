import Retarget.CommandLine.Run
import Retarget.Proofs.Encodings

/-!
# Exit codes

A run that assembles a file passes seven stages, and each of them may fail.  `course` is the run
with nothing caught: the assembler that it ends with, or the stage that failed and its fault.  The
run itself answers some of these failures with code 2 and is ended by the others.

Which failures are possible at all, and what becomes of each, is the table of `Stage.answers` and
`Stage.misses`.  The main result `ending_of_course` is that the table is complete and that the run
keeps to it: a course that fails does so for a fault in the table, a failure that is answered ends
with code 2, one that is missed ends the run with its fault, and a course that succeeds ends with
code 1 or 0, by whether assembly stopped or warnings count as errors and there is one.  Left out are
only documents that escape half of a pair, which no text can hold (`FileTree.Paired`).
-/

namespace Retarget

/-- A step that fails only where something is too large fails for these faults. -/
theorem FailsFor.of_bounded {α : Type} {allowed : Fault → Bool} {result : Except Fault α}
    {within : Prop} (h : Bounded result within)
    (hlarge : ∀ fault, fault.isTooLarge = true → allowed fault = true) :
    FailsFor allowed result :=
  fun fault hfault => hlarge fault (h.isTooLarge_of_error hfault)

/-! ## Paths and files -/

section Files

variable {allowed : Fault → Bool}

/-- A path is resolved unless there is a null in it. -/
theorem Path.failsFor_resolve (hnull : allowed .nullInPath = true) (workingDirectory p : Path) :
    FailsFor allowed (resolve workingDirectory p) := by
  unfold resolve
  split
  · exact .error hnull
  · exact .ok _

/-- A path is expanded unless there is a null in it or the home is unknown. -/
theorem Path.failsFor_expandHome (hnull : allowed .nullInPath = true)
    (hhome : allowed .unknownHome = true) (homeOf : String → Option Path) (p : Path) :
    FailsFor allowed (expandHome homeOf p) := by
  unfold expandHome
  repeat' split
  · exact .ok _
  · exact .ok _
  · exact .error hnull
  · exact .ok _
  · exact .error hhome
  · exact .ok _

namespace FileTree

variable {tree : FileTree}

/-- Looking for a path fails if there is a null in it, or for what the file tree says. -/
theorem failsFor_locate {path : Path} (hnull : path.hasNull = true → allowed .nullInPath = true)
    (hfile : ∀ e, allowed (.file e) = true) : FailsFor allowed (tree.locate path) := by
  unfold locate
  repeat' split
  · exact .error (hnull ‹_›)
  · exact .error (hfile _)
  · exact .ok _
  · exact .error (hfile _)
  · exact .error (hfile _)
  · exact .error (hfile _)

/-- What is found at a path is what the tree has at its place. -/
theorem node_of_locate {path : Path} {place : List String} {node : Option Node}
    (h : tree.locate path = .ok (place, node)) : tree.node place = node := by
  unfold locate at h
  repeat' split at h
  · cases h
  · cases h
  · cases h
    rfl
  · cases h
  · cases h
  · cases h

/-- Whether a path is a file fails only for what the file tree says. -/
theorem failsFor_isFile (hfile : ∀ e, allowed (.file e) = true) (path : Path) :
    FailsFor allowed (tree.isFile path) := by
  unfold isFile
  split
  · exact .ok _
  · exact .error (hfile _)
  · exact .ok _

/-- A file is read unless there is a null in its path or the file tree fails. -/
theorem failsFor_read {path : Path} (hnull : path.hasNull = true → allowed .nullInPath = true)
    (hfile : ∀ e, allowed (.file e) = true) : FailsFor allowed (tree.read path) := by
  unfold read
  split
  · exact .ok _
  · exact .error (hfile _)
  · exact .error (hfile _)
  · exact .error (failsFor_locate hnull hfile _ ‹_›)

/-- A text is read unless the file is not read or cannot be decoded. -/
theorem failsFor_readText {path : Path} (hnull : path.hasNull = true → allowed .nullInPath = true)
    (hfile : ∀ e, allowed (.file e) = true) (hdecoding : ∀ e, allowed (.decoding e) = true) :
    FailsFor allowed (tree.readText path) :=
  .bind (failsFor_read hnull hfile) fun _ _ => .mapError hdecoding

/-- A file is writable unless there is a null in its path or the file tree fails. -/
theorem failsFor_writable {path : Path} (hnull : allowed .nullInPath = true)
    (hfile : ∀ e, allowed (.file e) = true) : FailsFor allowed (tree.writable path) := by
  unfold writable
  split
  · exact .error (hfile _)
  · exact .ok _
  · exact .error (failsFor_locate (fun _ => hnull) hfile _ ‹_›)

end FileTree

end Files

namespace CommandLine

/-! ## Stages -/

/-- A stage of a run that assembles a file. -/
inductive Stage where
  /-- The level of the log is read from its word. -/
  | level
  /-- The directories of the search are resolved. -/
  | search
  /-- The architecture that the options name is read. -/
  | arch
  /-- The source is read. -/
  | source
  /-- The program is assembled and finished. -/
  | program
  /-- The outcome is written. -/
  | output
  /-- The figures of the run are printed. -/
  | figures
  deriving DecidableEq, Repr

namespace Stage

/-- The faults that a stage answers with code 2. -/
def answers : Stage → Fault → Bool
  | arch, .load _ => true
  | arch, .file _ => true
  | arch, .decoding _ => true
  | arch, .literal _ => true
  | arch, .arch _ => true
  | arch, .nullInPath => true
  | source, .file _ => true
  | output, .binaryNeedsFile => true
  | output, .decimalTooLong => true
  | output, .fieldTooWide => true
  | output, .file _ => true
  | output, .nullInPath => true
  | _, _ => false

/-- The faults of a stage that nothing answers. -/
def misses : Stage → Fault → Bool
  | level, .noValue _ => true
  | level, .noLevel _ => true
  | search, .nullInPath => true
  | search, .noPath => true
  | search, .unknownHome => true
  | arch, .unknownHome => true
  | arch, .excess _ => true
  | arch, .tooDeep _ => true
  | source, .decoding _ => true
  | program, fault => fault.isTooLarge
  | output, .excess _ => true
  | output, .noValue _ => true
  | figures, .decimalTooLong => true
  | _, _ => false

/-- The faults that a stage may fail for. -/
def meets (stage : Stage) (fault : Fault) : Bool :=
  stage.answers fault || stage.misses fault

/-- How a run ends whose stage fails. -/
def ending (stage : Stage) (fault : Fault) : Ending :=
  if stage.answers fault then .code 2 else .fault fault

/-- A result of a stage, whose fault names the stage. -/
def tag {α : Type} (stage : Stage) (result : Except Fault α) : Except (Stage × Fault) α :=
  result.mapError fun fault => (stage, fault)

/-- The faults of an architecture and of the output that are reported are those that are
answered. -/
theorem ending_endedBy {stage : Stage} (hstage : stage = .arch ∨ stage = .output) {fault : Fault}
    (h : stage.meets fault = true) (stderr : String) :
    (endedBy stderr fault).ending = stage.ending fault := by
  have hreported : isReported fault = stage.answers fault := by
    rcases hstage with rfl | rfl <;> cases fault <;> first | rfl | cases h
  unfold endedBy ending
  rw [hreported]
  split <;> rfl

/-- Nothing is caught at these stages. -/
theorem ending_of_uncaught {stage : Stage}
    (hstage : stage = .level ∨ stage = .search ∨ stage = .program ∨ stage = .figures)
    (fault : Fault) : stage.ending fault = .fault fault := by
  have hanswers : stage.answers fault = false := by
    rcases hstage with rfl | rfl | rfl | rfl <;> cases fault <;> rfl
  rw [ending, hanswers]
  rfl

/-- A document that is not read is answered, unless its values are nested too deeply. -/
theorem arch_meets_fault {malformed : Document.ReadError → Fault}
    (hmalformed : ∀ error, arch.meets (malformed error) = true) {error : Document.ReadError}
    (h : error ≠ .unpaired) : arch.meets (error.fault malformed) = true := by
  cases error with
  | unpaired => exact absurd rfl h
  | tooLong digits => rfl
  | tooDeep inside => rfl
  | malformed what line column position => exact hmalformed _

theorem output_meets_of_isTooLarge {fault : Fault} (h : fault.isTooLarge = true) :
    output.meets fault = true := by
  cases fault <;> first | rfl | cases h

end Stage

/-- Whether a run that takes a course ends as the table says. -/
structure Follows (werror : Bool) (ending : Ending) (course : Except (Stage × Fault) Assembler) :
    Prop where
  ok : ∀ a, course = .ok a → ending = .code (exitCode werror a)
  error : ∀ stage fault, course = .error (stage, fault) →
    stage.meets fault = true ∧ ending = stage.ending fault

namespace Follows

variable {α : Type} {werror : Bool} {ending : Ending} {stage : Stage} {result : Except Fault α}
  {rest : α → Except (Stage × Fault) Assembler}

/-- The stage fails. -/
theorem of_error {fault : Fault} (h : result = .error fault) (hfails : FailsFor stage.meets result)
    (hending : ending = stage.ending fault) :
    Follows werror ending (stage.tag result >>= rest) := by
  have hmeets := hfails fault h
  subst h
  refine ⟨?_, ?_⟩
  · rintro a ⟨⟩
  · rintro _ _ ⟨⟩
    exact ⟨hmeets, hending⟩

/-- The stage succeeds. -/
theorem of_ok {v : α} (h : result = .ok v) (hrest : Follows werror ending (rest v)) :
    Follows werror ending (stage.tag result >>= rest) := by
  subst h
  exact hrest

end Follows

/-! ## Faults of each stage -/

/-- The log is opened unless there is no such level. -/
theorem failsFor_openLog (s : Surroundings) (level : Level) :
    FailsFor Stage.level.meets (openLog s level) := by
  have hname : ∀ name, FailsFor Stage.level.meets (openLogAt s name) := by
    intro name
    unfold openLogAt
    repeat' split
    · exact .ok _
    · exact .error rfl
    · exact .ok _
  cases level with
  | usual => exact hname _
  | named name => exact hname name
  | missing => exact .error rfl

/-- The places to search are known unless the stage says why not. -/
theorem failsFor_searchOf (s : Surroundings) (source : Option Path) (options : Options) :
    FailsFor Stage.search.meets (searchOf s source options) := by
  have hresolve : ∀ p, FailsFor Stage.search.meets (Path.resolve s.tree.workingDirectory p) :=
    Path.failsFor_resolve rfl _
  have hdirectory : ∀ path, FailsFor Stage.search.meets (Search.directoryOf s.tree path) := by
    intro path
    unfold Search.directoryOf
    split
    · exact .error rfl
    · exact .bind (Path.failsFor_expandHome rfl rfl _ _) fun p _ => hresolve p
  have hdirectories : ∀ paths, FailsFor Stage.search.meets (Search.directoriesOf s.tree paths) := by
    intro paths
    unfold Search.directoriesOf
    refine .bind (.mapM fun path _ => hdirectory path) fun resolved _ => ?_
    split
    · exact .bind (hresolve _) fun p _ => .ok _
    · exact .ok _
  unfold searchOf
  refine .bind ?_ fun own _ => .bind (hdirectories _) fun directories _ => .ok _
  cases source with
  | none => exact .ok _
  | some p => exact .map (hresolve p) some

/-- A source whose directory is searched has no null in its path. -/
theorem hasNull_of_searchOf {s : Surroundings} {source : Path} {options : Options} {search : Search}
    (h : searchOf s (some source) options = .ok search) : source.hasNull = false := by
  by_contra hnull
  have hresolve : Path.resolve s.tree.workingDirectory source = .error .nullInPath := by
    rw [Path.resolve, if_pos (by simpa using hnull)]
  rw [searchOf, Option.mapM_some, hresolve] at h
  cases h

/-- The figures of a program can be told, or are too long. -/
theorem failsFor_figures (a : Assembler) : FailsFor Stage.figures.meets (figures a) := by
  unfold figures
  split
  · exact .ok _
  · exact .error rfl

/-- The code of a run in words: assembly stopped, or warnings count and there is one. -/
theorem exitCode_eq (werror : Bool) (a : Assembler) :
    exitCode werror a =
      if a.aborted = true ∨ (werror = true ∧ 0 < a.diagnostics.size) then 1 else 0 := by
  simp [exitCode, Array.size_pos_iff]

end CommandLine

/-! ### The architecture -/

namespace Search

open CommandLine (Stage)

variable {search : Search} {tree : FileTree}

/-- The first file among places is found, or the file tree fails. -/
theorem failsFor_firstFile (places : List Path) :
    FailsFor Stage.arch.meets (firstFile tree places) := by
  induction places with
  | nil => exact .ok _
  | cons place rest ih =>
    refine .bind (FileTree.failsFor_isFile (fun _ => rfl) place) fun found _ => ?_
    split
    · exact .ok _
    · exact ih

/-- A file is found on the search path, or the stage says why not. -/
theorem failsFor_find (kind filename : String) (inside : List String) :
    FailsFor Stage.arch.meets (search.find tree kind filename inside) := by
  have hcandidates : FailsFor Stage.arch.meets (search.candidates tree filename inside) := by
    refine .bind (Path.failsFor_expandHome rfl rfl _ _) fun requested _ => ?_
    split
    · exact .ok _
    · exact .ok _
  unfold find
  split
  · exact .error rfl
  · refine .bind hcandidates fun places _ => .bind (failsFor_firstFile places) fun found _ => ?_
    split
    · exact .ok _
    · exact .error rfl

/-- A file that is read where it was found is read from the tree. -/
theorem readText_of_readFound {kind : String} {place : Path} {text : String}
    (h : readFound tree kind place = .ok text) : tree.readText place = .ok text := by
  unfold readFound at h
  split at h
  · cases h
  · exact h

end Search

section

variable [Machine]

/-- Whether no document has half of a pair of escapes, which stands for no character. -/
def FileTree.Paired (tree : FileTree) : Prop :=
  ∀ place bytes text, tree.node place = some (.file bytes) → Text.ofFile bytes = .ok text →
    Document.parse Machine.depth text ≠ .error .unpaired

/-- No file of a paired tree is refused for half a pair. -/
theorem FileTree.Paired.parse_ne {tree : FileTree} (h : tree.Paired) {path : Path} {text : String}
    (htext : tree.readText path = .ok text) :
    Document.parse Machine.depth text ≠ .error .unpaired := by
  obtain ⟨bytes, hread, hdecode⟩ := exists_of_bind_eq_ok htext
  obtain ⟨place, hnode⟩ : ∃ place, tree.node place = some (.file bytes) := by
    unfold FileTree.read at hread
    split at hread
    · rename_i place found hlocate
      cases hread
      exact ⟨place, FileTree.node_of_locate hlocate⟩
    · cases hread
    · cases hread
    · cases hread
  refine h place bytes text hnode ?_
  rcases hfile : Text.ofFile bytes with error | decoded
  · rw [hfile] at hdecode
    cases hdecode
  · rw [hfile] at hdecode
    exact congrArg Except.ok (Except.ok.inj hdecode)

namespace Search

open CommandLine (Stage)

variable {search : Search} {tree : FileTree}

theorem failsFor_loadArch (hpaired : tree.Paired) (name : String) :
    FailsFor Stage.arch.meets (search.loadArch tree name) := by
  have hread : ∀ kind place, FailsFor Stage.arch.meets (readFound tree kind place) := by
    intro kind place
    unfold readFound
    split
    · exact .error rfl
    · exact FileTree.failsFor_readText (fun _ => rfl) (fun _ => rfl) (fun _ => rfl)
  refine .bind (failsFor_find _ _ _) fun place _ => .bind (hread _ place) fun text htext => ?_
  split
  · rename_i error hparse
    refine .error (Stage.arch_meets_fault (fun _ => rfl) ?_)
    rintro rfl
    exact hpaired.parse_ne (readText_of_readFound htext) hparse
  · split
    · exact .ok _
    · exact .error rfl

end Search

namespace CommandLine

theorem failsFor_loadArch {tree : FileTree} (hpaired : tree.Paired) (search : Search)
    (name : String) : FailsFor Stage.arch.meets (loadArch tree (search.library tree) name) := by
  have hcompile : ∀ arch, FailsFor Stage.arch.meets
      ((InstructionSet.ofArch arch).mapError .arch) := fun _ => .mapError fun _ => rfl
  have hread : ∀ path, FailsFor Stage.arch.meets (Arch.ofFile tree path) := by
    intro path
    refine .bind (FileTree.failsFor_readText (fun _ => rfl) (fun _ => rfl) (fun _ => rfl))
      fun text htext => ?_
    refine Arch.failsFor_ofText (fun _ => rfl) (fun _ => rfl) ?_ _
    intro error malformed hparse hmalformed
    refine Stage.arch_meets_fault hmalformed ?_
    rintro rfl
    exact hpaired.parse_ne htext hparse
  have hload : ∀ path isFile, FailsFor Stage.arch.meets (if isFile = true then do
      let arch ← Arch.ofFile tree path
      (InstructionSet.ofArch arch).mapError .arch
    else do
      let data ← (search.library tree).arch name
      let arch ← Arch.ofDocument name data
      (InstructionSet.ofArch arch).mapError .arch) := by
    intro path isFile
    split
    · exact .bind (hread path) fun arch _ => hcompile arch
    · refine .bind (Search.failsFor_loadArch hpaired name) fun data _ => ?_
      exact .bind (Arch.failsFor_ofDocument (fun _ => rfl) (fun _ => rfl) name data)
        fun arch _ => hcompile arch
  unfold loadArch
  simp only
  split
  · exact .bind (FileTree.failsFor_isFile (fun _ => rfl) _) fun isFile _ => hload _ isFile
  · exact .bind (.ok false) fun isFile _ => hload _ isFile

theorem failsFor_prepare {tree : FileTree} (hpaired : tree.Paired) (search : Search)
    (options : Options) :
    FailsFor Stage.arch.meets (prepare tree (search.library tree) options) := by
  unfold prepare
  split
  · split
    · exact .ok _
    · exact .map (failsFor_loadArch hpaired search _) _
  · exact .ok _

/-- A run starts with an assembler that has read nothing. -/
theorem exists_fresh_of_prepare {tree : FileTree} {library : Library} {options : Options}
    {start : Assembler} (h : prepare tree library options = .ok start) :
    ∃ active, start = Assembler.fresh active := by
  unfold prepare at h
  split at h
  · split at h
    · cases h
      exact ⟨none, rfl⟩
    · rename_i name _ _
      rcases hload : loadArch tree library name with fault | set
      · rw [hload] at h
        cases h
      · rw [hload] at h
        cases h
        exact ⟨some set, rfl⟩
  · cases h
    exact ⟨none, rfl⟩

/-! ### The program -/

/-- The assembler that a program leaves, if it is finished. -/
def finished (library : Library) (text : String) (start : Assembler) : Except Fault Assembler :=
  (((Assembler.assemble (some library) text).runFrom start).1).map fun _ =>
    ((Assembler.assemble (some library) text).runFrom start).2

/-- A program is finished, or the stage says why not. -/
theorem failsFor_finished (library : Library) (text : String) (active : Option InstructionSet) :
    FailsFor Stage.program.meets (finished library text (Assembler.fresh active)) := by
  have hwell : (Assembler.assembleLines (some library) (Text.lines text)
      (Assembler.fresh active)).WellFormed (some library) :=
    (Assembler.wellFormed_fresh active).assembleLines _
  have hfinish : FailsFor Stage.program.meets
      ((Assembler.assemble (some library) text).runFrom (Assembler.fresh active)).1 :=
    .of_bounded hwell.bounded_finish fun fault hlarge => by
      rw [Stage.meets, Stage.misses, hlarge, Bool.or_true]
  exact hfinish.map _

/-- Words have at least one bit once a program is finished. -/
theorem width_pos_of_finished {library : Library} {text : String} {active : Option InstructionSet}
    {a : Assembler} (h : finished library text (Assembler.fresh active) = .ok a) : 1 ≤ a.width := by
  have hwell : ((Assembler.assemble (some library) text).runFrom
      (Assembler.fresh active)).2.WellFormed (some library) :=
    ((Assembler.wellFormed_fresh active).call (.assemble text)).1
  unfold finished at h
  rcases hrun : (Assembler.assemble (some library) text).runFrom (Assembler.fresh active) with
    ⟨fault | u, b⟩
  · rw [hrun] at h
    cases h
  · rw [hrun] at h hwell
    cases h
    exact hwell.width_pos

/-! ### The output -/

section Output

variable {a : Assembler} (hwidth : 1 ≤ a.width)

include hwidth

/-- An output has a text, or the stage says why not. -/
theorem failsFor_text (format : OutputFormat) :
    FailsFor Stage.output.meets (Report.text format a) := by
  cases format with
  | hex =>
    exact .of_bounded (Report.bounded_hexLines hwidth)
      fun _ => Stage.output_meets_of_isTooLarge
  | json =>
    show FailsFor Stage.output.meets (Report.document a)
    unfold Report.document
    split
    · exact .ok _
    · exact .error rfl
  | listing =>
    exact .of_bounded (Report.bounded_listingBy Table.bars a)
      fun _ => Stage.output_meets_of_isTooLarge
  | bin => exact .error rfl

theorem failsFor_content (format : OutputFormat) :
    FailsFor Stage.output.meets (Report.content format a) := by
  unfold Report.content
  split
  · exact .of_bounded (bounded_packWords hwidth _) fun _ => Stage.output_meets_of_isTooLarge
  · exact (failsFor_text hwidth _).map _

/-- An output is delivered, or the stage says why not. -/
theorem failsFor_delivery (tree : FileTree) (options : Options) :
    FailsFor Stage.output.meets (delivery tree options a) := by
  unfold delivery
  split
  · exact .bind (failsFor_text hwidth _) fun text _ => .ok _
  · refine .error ?_
    unfold nowhereFault
    split
    · rfl
    · rfl
    · exact failsFor_text hwidth _ _ ‹_›
  · refine .bind (failsFor_content hwidth _) fun bytes _ => ?_
    exact .bind (FileTree.failsFor_writable rfl fun _ => rfl) fun place _ => .ok _

end Output

/-! ## The course of a run -/

/-- The course of a run from its finished program on. -/
def outputCourse (tree : FileTree) (options : Options) (a : Assembler) :
    Except (Stage × Fault) Assembler := do
  let _ ← Stage.output.tag (delivery tree options a)
  let _ ← Stage.figures.tag (if options.verbose then figures a else .ok "")
  .ok a

/-- The course of a run from its source on. -/
def sourceCourse (tree : FileTree) (library : Library) (options : Options) (source : Path)
    (start : Assembler) : Except (Stage × Fault) Assembler := do
  let text ← Stage.source.tag (tree.readText source)
  let a ← Stage.program.tag (finished library text start)
  outputCourse tree options a

/-- The course of a run that assembles a file, stage by stage and with nothing caught: the assembler
with which it ends, or the stage that failed and its fault. -/
def course (s : Surroundings) (options : Options) (source : Path) :
    Except (Stage × Fault) Assembler := do
  let _ ← Stage.level.tag (openLog s options.level)
  let search ← Stage.search.tag (searchOf s (some source) options)
  let start ← Stage.arch.tag (prepare s.tree (search.library s.tree) options)
  sourceCourse s.tree (search.library s.tree) options source start

/-- Writing the output ends as its course says. -/
theorem follows_writeOutcome (tree : FileTree) (options : Options) (stderr : String) {a : Assembler}
    (hwidth : 1 ≤ a.width) : Follows options.werror (writeOutcome tree options stderr a).ending
      (outputCourse tree options a) := by
  have houtput := failsFor_delivery hwidth tree options
  unfold writeOutcome outputCourse
  rcases hdelivery : delivery tree options a with fault | ⟨stdout, written⟩
  · rw [hdelivery] at houtput
    exact .of_error rfl houtput (Stage.ending_endedBy (.inr rfl) (houtput fault rfl) stderr)
  · refine .of_ok rfl ?_
    unfold conclude
    cases hverbose : options.verbose with
    | false =>
      refine .of_ok rfl ⟨?_, nofun⟩
      rintro _ ⟨⟩
      rfl
    | true =>
      have hfails := failsFor_figures a
      rcases hfigures : figures a with fault | text
      · rw [hfigures] at hfails
        exact .of_error rfl hfails (Stage.ending_of_uncaught (by simp) fault).symm
      · refine .of_ok rfl ⟨?_, nofun⟩
        rintro _ ⟨⟩
        rfl

/-- Assembling a file ends as its course says. -/
theorem follows_assembleFile {tree : FileTree} (library : Library) (options : Options)
    {source : Path} (hnull : source.hasNull = false) (active : Option InstructionSet) :
    Follows options.werror
      (assembleFile tree library options source (Assembler.fresh active)).ending
      (sourceCourse tree library options source (Assembler.fresh active)) := by
  have hread : FailsFor Stage.source.meets (tree.readText source) :=
    FileTree.failsFor_readText (by simp [hnull]) (fun _ => rfl) (fun _ => rfl)
  unfold assembleFile sourceCourse
  rcases htext : tree.readText source with fault | text
  · rw [htext] at hread
    refine .of_error rfl hread ?_
    -- Only a file that cannot be opened is answered.
    cases fault <;> rfl
  · refine .of_ok rfl ?_
    rcases hrun : (Assembler.assemble (some library) text).runFrom (Assembler.fresh active) with
      ⟨fault | u, a⟩
    · have hfinished : finished library text (Assembler.fresh active) = .error fault := by
        rw [finished, hrun]
        rfl
      simp only [hrun]
      exact .of_error hfinished (failsFor_finished library text active)
        (Stage.ending_of_uncaught (by simp) fault).symm
    · have hfinished : finished library text (Assembler.fresh active) = .ok a := by
        rw [finished, hrun]
        rfl
      simp only [hrun]
      exact .of_ok hfinished
        (follows_writeOutcome tree options _ (width_pos_of_finished hfinished))

/-- A batch run ends as its course says. -/
theorem follows_planFor {s : Surroundings} (hpaired : s.tree.Paired) {options : Options}
    {source : String} (hsource : options.source = some source) (hgiven : source ≠ "")
    (hbatch : options.interactive = false) :
    ∃ outcome, planFor s options = .finished outcome ∧
      Follows options.werror outcome.ending (course s options (Path.parse source)) := by
  have hsearches := failsFor_searchOf s (some (Path.parse source)) options
  unfold planFor course
  simp only [hsource, if_neg hgiven, hbatch]
  have hlogs := failsFor_openLog s options.level
  rcases hlog : openLog s options.level with fault | _
  · rw [hlog] at hlogs
    exact ⟨_, rfl, .of_error rfl hlogs (Stage.ending_of_uncaught (by simp) fault).symm⟩
  rcases hsearch : searchOf s (some (Path.parse source)) options with fault | search
  · rw [hsearch] at hsearches
    exact ⟨_, rfl, .of_ok rfl
      (.of_error rfl hsearches (Stage.ending_of_uncaught (by simp) fault).symm)⟩
  have hprepares := failsFor_prepare hpaired search options
  dsimp only
  rcases hprepare : prepare s.tree (search.library s.tree) options with fault | start
  · rw [hprepare] at hprepares
    refine ⟨_, rfl, .of_ok rfl (.of_ok rfl (.of_error hprepare ?_ ?_))⟩
    · rwa [hprepare]
    · exact Stage.ending_endedBy (.inl rfl) (hprepares fault rfl) ""
  · obtain ⟨active, rfl⟩ := exists_fresh_of_prepare hprepare
    exact ⟨_, rfl, .of_ok rfl (.of_ok rfl (.of_ok hprepare
      (follows_assembleFile _ options (hasNull_of_searchOf hsearch) active)))⟩

end CommandLine

end

namespace CommandLine

/-- A working directory with a source that is no text. -/
def undecodable : Surroundings where
  tree :=
    { node := fun place =>
        if place = [] then some .directory
        else if place = ["p.asm"] then some (.file [0xFF])
        else none
      workingDirectory := ⟨.top, []⟩
      homeOf := fun _ => none }

open UsualMachine in
/-- The only file there is no document. -/
theorem paired_undecodable : undecodable.tree.Paired := by
  intro place bytes text hnode hdecode
  have hbytes : bytes = [0xFF] := by
    simp only [undecodable] at hnode
    split at hnode
    · cases hnode
    · split at hnode
      · cases hnode
        rfl
      · cases hnode
  rw [hbytes] at hdecode
  have hnone : (Text.ofFile [0xFF]).toOption = none := by decide +kernel
  rw [hdecode] at hnone
  cases hnone

end CommandLine

end Retarget
