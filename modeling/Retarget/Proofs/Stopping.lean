import Retarget.Proofs.Inclusion
import Retarget.Proofs.Placement

/-!
# Where a run stops

A program is assembled until something fatal is told.  Many things are fatal, in lines of the
program itself and in lines of the sources that it includes, and each of them is told where it
happens.  Nobody on the way out tells it again, and no line is read behind it.

`TellsStop` says this of a state: as long as assembly runs nothing fatal has been told, and once it
has stopped the last diagnostic is the only fatal one and about the line that was read last.  Every
event keeps it (`TellsStop.apply`), so every run does.  Finishing adds warnings only
(`warns_finish`), and so the fatal diagnostic of a whole program is where its lines left it.
-/

namespace Retarget

/-! ## What attempts keep -/

namespace Attempt

variable {σ τ α β : Type} {post : σ → Prop}

/-- Whether an attempt keeps a property of the state, even where it fails. -/
def Keeps (post : σ → Prop) (x : Attempt σ α) : Prop :=
  ∀ s, post s → post (x.runFrom s).2

theorem Keeps.pure (v : α) : Keeps post (Pure.pure v) :=
  fun _ hs => hs

theorem Keeps.ofExcept (result : Except Fault α) : Keeps post (Attempt.ofExcept result) :=
  fun _ hs => hs

theorem Keeps.modify {f : σ → σ} (h : ∀ s, post s → post (f s)) :
    Keeps post (modify f : Attempt σ PUnit) :=
  h

/-- Two steps that keep a condition keep it one after the other. -/
theorem Keeps.bind {x : Attempt σ α} {f : α → Attempt σ β} (hx : Keeps post x)
    (hf : ∀ v, Keeps post (f v)) : Keeps post (x >>= f) := by
  intro s hs
  have hreached := hx s hs
  rcases h : x.runFrom s with ⟨fault | v, t⟩
  · rw [h] at hreached
    rw [runFrom_bind_error h]
    exact hreached
  · rw [h] at hreached
    rw [runFrom_bind_ok h]
    exact hf v t hreached

theorem Keeps.get_bind {g : σ → Attempt σ β} (h : ∀ s, Keeps post (g s)) :
    Keeps post (get >>= g) :=
  .bind (fun _ hs => hs) h

/-- A step that keeps a condition keeps it over a list. -/
theorem Keeps.each {f : β → Attempt σ Unit} (h : ∀ x, Keeps post (f x)) (xs : List β) :
    Keeps post (Attempt.each f xs) := by
  induction xs with
  | nil => exact .pure ()
  | cons x rest ih => exact .bind (h x) fun _ => ih

end Attempt

namespace Assembler

open Attempt

/-! ## Warnings -/

section Warns

variable {a b : Assembler}

/-- Whether `b` is reached from `a` by warnings: in the same line, neither stopped nor started
again, and nothing fatal has been told on the way. -/
structure Warns (a b : Assembler) : Prop where
  aborted : b.aborted = a.aborted
  line : b.line = a.line
  told : ∃ warnings, b.diagnostics.toList = a.diagnostics.toList ++ warnings ∧
    ∀ w ∈ warnings, w.fatal = false

theorem Warns.refl (a : Assembler) : Warns a a :=
  ⟨rfl, rfl, [], (List.append_nil _).symm, by rintro _ ⟨⟩⟩

/-- A warning is one more. -/
theorem Warns.warn (h : Warns a b) (notice : Notice) (line : Option Int) :
    Warns a (b.warn notice line) := by
  obtain ⟨warnings, htold, hfatal⟩ := h.told
  refine ⟨h.aborted, h.line, warnings ++ [⟨notice, b.lineOr line, false⟩], ?_, ?_⟩
  · rw [Assembler.warn, Array.toList_push, htold, List.append_assoc]
  · intro w hw
    rcases List.mem_append.1 hw with hw | hw
    · exact hfatal w hw
    · obtain rfl := List.mem_singleton.1 hw
      rfl

theorem Warns.warnAll (h : Warns a b) (reports : List Report) : Warns a (b.warnAll reports) := by
  induction reports generalizing b with
  | nil => exact h
  | cons report rest ih => exact ih (h.warn report.notice (some report.line))

/-- What has been told stays told. -/
theorem Warns.isPrefix (h : Warns a b) : a.diagnostics.toList <+: b.diagnostics.toList := by
  obtain ⟨warnings, htold, -⟩ := h.told
  exact ⟨warnings, htold.symm⟩

/-- What has been told when a run stops stays told. -/
theorem prefix_stop (a : Assembler) (notice : Notice) (line : Option Int) :
    a.diagnostics.toList <+: (a.stop notice line).diagnostics.toList := by
  rw [stop, Array.toList_push]
  exact List.prefix_append _ _

theorem keeps_note (nbits : Int) : Keeps (Warns a) (note nbits) :=
  fun _ ht => ⟨ht.aborted, ht.line, ht.told⟩

end Warns

/-! ## The stop of a run -/

section TellsStop

variable {a : Assembler}

/-- Whether the diagnostics of an assembler tell of its stop: none is fatal while it runs, and only
the last one once it has stopped, in the line that was read last. -/
structure TellsStop (a : Assembler) : Prop where
  running : a.aborted = false → ∀ d ∈ a.diagnostics.toList, d.fatal = false
  stopped : a.aborted = true → ∃ warnings d, a.diagnostics.toList = warnings ++ [d] ∧
    (∀ w ∈ warnings, w.fatal = false) ∧ d.fatal = true ∧ d.line = (a.line : Int)

/-- What stops a run is told once. -/
theorem tellsStop_stop (h : ∀ d ∈ a.diagnostics.toList, d.fatal = false) (notice : Notice) :
    TellsStop (a.stop notice none) := by
  refine ⟨by rintro ⟨⟩, fun _ => ⟨a.diagnostics.toList, ⟨notice, a.line, true⟩, ?_, h, rfl, rfl⟩⟩
  rw [stop, Array.toList_push, lineOr]

/-- While nothing fatal has been told, there is no stop to tell of. -/
theorem tellsStop_of_running (hrun : a.aborted = false)
    (h : ∀ d ∈ a.diagnostics.toList, d.fatal = false) : TellsStop a := by
  refine ⟨fun _ => h, fun hstop => ?_⟩
  rw [hrun] at hstop
  cases hstop

/-- An attempt that only warns is told of once if it fails. -/
theorem tellsStop_guarded {α : Type} {x : Attempt Assembler α} (hx : Keeps (Warns a) x)
    (hrun : a.aborted = false) (h : ∀ d ∈ a.diagnostics.toList, d.fatal = false) :
    TellsStop (guarded x a) := by
  have hwarns := hx a (.refl a)
  have hreached : ∀ d ∈ (x.runFrom a).2.diagnostics.toList, d.fatal = false := by
    obtain ⟨warnings, htold, hfatal⟩ := hwarns.told
    rw [htold, List.forall_mem_append]
    exact ⟨h, hfatal⟩
  rcases hxa : x.runFrom a with ⟨fault | v, b⟩
  · rw [hxa] at hreached
    rw [guarded_of_error hxa]
    exact tellsStop_stop hreached _
  · rw [hxa] at hreached hwarns
    rw [guarded_of_ok hxa]
    exact tellsStop_of_running (hwarns.aborted.trans hrun) hreached

/-- A fresh assembler has not been stopped. -/
theorem tellsStop_fresh (active : Option InstructionSet) : TellsStop (fresh active) := by
  cases active with
  | none => exact tellsStop_of_running rfl (by rintro _ ⟨⟩)
  | some set => exact tellsStop_of_running rfl (by rintro _ ⟨⟩)

theorem aborted_fresh (active : Option InstructionSet) : (fresh active).aborted = false := by
  cases active <;> rfl

end TellsStop

section

variable [Machine] {a : Assembler}

/-! ## What an event tells -/

/-- Storing a word tells nothing but warnings. -/
theorem keeps_store (value : Int) : Keeps (Warns a) (store value) := by
  refine .get_bind fun s => .bind ?_ fun _ => .modify ?_
  · exact fun t ht => ⟨ht.aborted, ht.line, ht.told⟩
  · exact fun t ht => ⟨ht.aborted, ht.line, ht.told⟩

/-- Emitting a number tells nothing but warnings. -/
theorem keeps_emit (opcode nbits : Nat) : Keeps (Warns a) (emit opcode nbits) := by
  refine .bind (keeps_note nbits) fun record => .get_bind fun s => ?_
  refine .bind (.ofExcept _) fun count => .bind (.ofExcept _) fun bits => ?_
  exact .bind (.each (fun (word : Nat) => keeps_store word) _) fun _ => .pure record

/-- Emitting words tells nothing but warnings. -/
theorem keeps_emitWords (values : List Int) : Keeps (Warns a) (emitWords values) := by
  refine .get_bind fun s => .bind (keeps_note _) fun record => ?_
  exact .bind (.each keeps_store values) fun _ => .pure record

/-- Emitting an instruction tells nothing but warnings. -/
theorem keeps_emitInstruction (instruction : Instruction) :
    Keeps (Warns a) (emitInstruction instruction) := by
  refine .get_bind fun s => .bind (.ofExcept _) fun notice => ?_
  have hqueue : Keeps (Warns a) (do
      modify fun a => { a with fixups := a.fixups ++ instruction.fixups.toArray }
      emit instruction.opcode instruction.nbits) :=
    .bind (.modify fun t ht => ⟨ht.aborted, ht.line, ht.told⟩) fun _ => keeps_emit _ _
  cases notice with
  | none => exact hqueue
  | some notice => exact .bind (.modify fun t ht => ht.warn notice none) fun _ => hqueue

/-- What is emitted is warned about at most. -/
theorem keeps_perform (emission : Emission) : Keeps (Warns a) (perform emission) := by
  cases emission with
  | code e =>
    exact .get_bind fun s => .bind (keeps_emitInstruction _) fun _ => .pure ()
  | data tokens =>
    refine .bind (.modify fun t ht => ⟨ht.aborted, ht.line, ht.told⟩) fun _ => ?_
    exact .bind (keeps_emitWords _) fun _ => .pure ()
  | text characters => exact .bind (keeps_emitWords _) fun _ => .pure ()

/-- What has been told stays told. -/
theorem prefix_apply (a : Assembler) (e : Event) :
    a.diagnostics.toList <+: (a.apply e).diagnostics.toList := by
  cases e with
  | tell notice => exact ((Warns.refl a).warn notice none).isPrefix
  | halt notice => exact prefix_stop a notice none
  | width n =>
    rw [apply, setWidth]
    split
    · exact prefix_stop a _ none
    · exact List.prefix_rfl
  | align n =>
    rw [apply, align]
    split
    · exact prefix_stop a _ none
    · exact List.prefix_rfl
  | emit emission =>
    have hwarns := keeps_perform emission a (.refl a)
    rw [apply]
    rcases hrun : (perform emission).runFrom a with ⟨fault | u, b⟩
    · rw [hrun] at hwarns
      rw [guarded_of_error hrun]
      exact hwarns.isPrefix.trans (prefix_stop b _ none)
    · rw [hrun] at hwarns
      rw [guarded_of_ok hrun]
      exact hwarns.isPrefix
  | _ => exact List.prefix_rfl

/-- What has been told before events stays told. -/
theorem prefix_replay (events : List Event) (a : Assembler) :
    a.diagnostics.toList <+: (replay events a).diagnostics.toList := by
  induction events generalizing a with
  | nil => exact List.prefix_rfl
  | cons e rest ih => exact (prefix_apply a e).trans (ih (a.apply e))

/-- **Finishing a program adds warnings only.** -/
theorem warns_finish (a : Assembler) : Warns a (finish.runFrom a).2 := by
  have hresolve : Keeps (Warns a) resolveFixups := by
    intro t ht
    rw [runFrom_resolveFixups]
    refine Warns.warnAll ?_ _
    exact ⟨ht.aborted, ht.line, ht.told⟩
  have hrender : Keeps (Warns a) renderRecords := by
    intro t ht
    rw [runFrom_renderRecords]
    refine Warns.warnAll ?_ _
    exact ⟨ht.aborted, ht.line, ht.told⟩
  have hfinish : Keeps (Warns a) finish := by
    refine .bind hresolve fun _ => .bind hrender fun _ t ht => ?_
    rw [runFrom_bind_ok (runFrom_get t)]
    rcases t.image.pad t.codelen with fault | image
    · exact ht
    · exact ⟨ht.aborted, ht.line, ht.told⟩
  exact hfinish a (.refl a)

/-- **An event stops a run or lets it run on**, and only if it stops it something fatal is told. -/
theorem TellsStop.apply (h : TellsStop a) (hrun : a.aborted = false) (e : Event) :
    TellsStop (a.apply e) := by
  have hnone := h.running hrun
  cases e with
  | tell notice =>
    refine tellsStop_of_running hrun fun d hd => ?_
    rw [Assembler.apply, warn, Array.toList_push, List.mem_append, List.mem_singleton] at hd
    rcases hd with hd | rfl
    · exact hnone d hd
    · rfl
  | halt notice => exact tellsStop_stop hnone notice
  | width n =>
    rw [Assembler.apply, setWidth]
    split
    · exact tellsStop_stop hnone _
    · exact tellsStop_of_running hrun hnone
  | align n =>
    rw [Assembler.apply, align]
    split
    · exact tellsStop_stop hnone _
    · exact tellsStop_of_running hrun hnone
  | emit emission => exact tellsStop_guarded (keeps_perform emission) hrun hnone
  | _ => exact tellsStop_of_running hrun hnone

/-- A run of events tells of its stop, because none is met after it. -/
theorem TellsStop.replay {events : List Event} (ho : Orderly a events) (h : TellsStop a) :
    TellsStop (replay events a) := by
  induction ho with
  | nil => exact h
  | cons running _ _ ih => exact ih (h.apply running _)

/-- The event that stops a run is the last one. -/
theorem Orderly.exists_last {events : List Event} (ho : Orderly a events)
    (hrun : a.aborted = false) (hstop : (replay events a).aborted = true) :
    ∃ before last, events = before ++ [last] ∧ (replay before a).aborted = false := by
  induction ho with
  | nil =>
    rw [replay_nil, hrun] at hstop
    cases hstop
  | @cons a e rest running _ later ih =>
    rcases hab : (a.apply e).aborted
    · obtain ⟨before, last, rfl, hbefore⟩ := ih hab hstop
      exact ⟨e :: before, last, rfl, hbefore⟩
    · cases later with
      | nil => exact ⟨[], e, rfl, running⟩
      | cons running =>
        rw [hab] at running
        cases running

/-- Every program tells of its stop. -/
theorem tellsStop_assembleLines (library : Option Library) (lines : List String)
    (active : Option InstructionSet) :
    TellsStop (assembleLines library lines (fresh active)) := by
  rw [assembleLines_eq_replay]
  exact (tellsStop_fresh active).replay (orderly_trace library lines _)

/-! ## Whole programs -/

/-- The assembler that a program leaves when it is finished, or when finishing it has failed. -/
def leftBy (library : Option Library) (text : String) (active : Option InstructionSet) :
    Assembler :=
  ((assemble library text).runFrom (fresh active)).2

/-- What the lines of a program leave is warned about while it is finished. -/
theorem warns_leftBy (library : Option Library) (text : String) (active : Option InstructionSet) :
    Warns (assembleLines library (Text.lines text) (fresh active))
      (leftBy library text active) := by
  rw [leftBy, assemble, runFrom_bind_ok (runFrom_modify _ _)]
  exact warns_finish _

/-- **A program stops at its first fatal diagnostic.**  It has stopped exactly if something fatal
has been told.  A fatal diagnostic is the only one, and it is about the line that was read last.  It
is the last one that the lines told, so that all behind it are warnings of finishing, and the event
that told it is the last one of the program and of all the sources that it includes. -/
theorem stops_at_fatal (library : Option Library) (text : String)
    (active : Option InstructionSet) :
    ((leftBy library text active).aborted = true ↔
      ∃ d ∈ (leftBy library text active).diagnostics.toList, d.fatal = true) ∧
    ∀ before d after,
      (leftBy library text active).diagnostics.toList = before ++ d :: after → d.fatal = true →
      (∀ w ∈ before ++ after, w.fatal = false) ∧
      d.line = ((leftBy library text active).line : Int) ∧
      (assembleLines library (Text.lines text) (fresh active)).diagnostics.toList =
        before ++ [d] ∧
      ∃ events last, Assembler.events library text active = events ++ [last] ∧
        (replay events (fresh active)).aborted = false := by
  have hlines := tellsStop_assembleLines library (Text.lines text) active
  have hwarns := warns_leftBy library text active
  obtain ⟨warnings, htold, hwarnings⟩ := hwarns.told
  cases hab : (assembleLines library (Text.lines text) (fresh active)).aborted with
  | false =>
    -- Nothing fatal was told by the lines, so nothing is in the end.
    have hnone : ∀ d ∈ (leftBy library text active).diagnostics.toList, ¬ d.fatal = true := by
      intro d hd
      rw [htold, List.mem_append] at hd
      rw [hd.elim (hlines.running hab d) (hwarnings d)]
      exact Bool.false_ne_true
    constructor
    · constructor
      · intro hstop
        rw [hwarns.aborted, hab] at hstop
        cases hstop
      · rintro ⟨d, hd, hfatal⟩
        exact absurd hfatal (hnone d hd)
    · intro before d after hsplit hfatal
      refine absurd hfatal (hnone d ?_)
      rw [hsplit]
      exact List.mem_append_right _ List.mem_cons_self
  | true =>
    obtain ⟨front, x, hdiagnostics, hfront, hx, hline⟩ := hlines.stopped hab
    rw [hdiagnostics, List.append_assoc, List.singleton_append] at htold
    constructor
    · constructor
      · intro _
        refine ⟨x, ?_, hx⟩
        rw [htold]
        exact List.mem_append_right _ List.mem_cons_self
      · intro _
        rw [hwarns.aborted, hab]
    · intro before d after hsplit hfatal
      -- A fatal diagnostic is none of the warnings, so the list is split at the same place.
      have hnot : ∀ ws : List Diagnostic, (∀ w ∈ ws, w.fatal = false) → d ∉ ws := by
        intro ws hws hd
        rw [hws d hd] at hfatal
        cases hfatal
      obtain ⟨rfl, rfl, rfl⟩ := (List.append_cons_inj_of_notMem (hnot front hfront)
        (hnot warnings hwarnings)).1 (htold.symm.trans hsplit)
      refine ⟨List.forall_mem_append.2 ⟨hfront, hwarnings⟩, ?_, hdiagnostics, ?_⟩
      · rw [hline, hwarns.line]
      · rw [assembleLines_eq_replay] at hab
        exact (orderly_trace library (Text.lines text) (fresh active)).exists_last
          (aborted_fresh active) hab

end

open UsualMachine in
/-- The innermost of two included sources stops the run, and finishing misses a symbol
afterwards. -/
theorem stops_at_fatal_included :
    ((leftBy (some twoLevels) ".data x\n.include outer\n.data 3" none).diagnostics.toList.map
      fun d => (d.line, d.fatal)) = [(6, true), (1, false)] ∧
    (leftBy (some twoLevels) ".data x\n.include outer\n.data 3" none).aborted = true ∧
    ((leftBy (some twoLevels) ".data x\n.include outer\n.data 3" none).line : Int) = 6 := by
  have htold : ((leftBy (some twoLevels) ".data x\n.include outer\n.data 3"
      none).diagnostics.toList.map fun d => (d.line, d.fatal)) = [(6, true), (1, false)] := by
    decide +kernel
  obtain ⟨haborted, hstop⟩ :=
    stops_at_fatal (some twoLevels) ".data x\n.include outer\n.data 3" none
  refine ⟨htold, ?_⟩
  obtain ⟨d, after, hsplit, hd, -⟩ := List.map_eq_cons_iff.1 htold
  obtain ⟨hline, hfatal⟩ := Prod.mk.inj hd
  constructor
  · refine haborted.2 ⟨d, ?_, hfatal⟩
    rw [hsplit]
    exact List.mem_cons_self
  · rw [← (hstop [] d after hsplit hfatal).2.1, hline]

end Assembler

end Retarget
