import Retarget.Proofs.Lines

/-!
# Rejected lines

A line is rejected if it fails, or if something is told of it other than a warning about the length
of its instruction.  A rejected line leaves nothing behind but its number, its label and what is
told of it, with one exception (`rejected_leaves`): nothing is taken back of an emission that has
begun.  Where not all words of a line can be stored, because words of the current width are too
large to be held or because the image has no room, its record and its fixups stay, and so do the
words that were stored before the first one without a place.
-/

namespace Retarget.Assembler

section

variable [Machine]

open Attempt

variable {library : Option Library} {a b : Assembler}

/-- Whether a line with this result was rejected: it failed, or something was told of it that is not
about the length of its instruction. -/
def Rejected {α : Type} (a : Assembler) (result : Except Fault α) (b : Assembler) : Prop :=
  (∃ fault, result = .error fault) ∨
    ∃ d ∈ b.diagnostics.toList.drop a.diagnostics.size, isAboutLength d.notice = false

/-- Whether nothing but at most one diagnostic was added to an assembler, which has stopped only if
this one is fatal. -/
structure LeftAlone (a b : Assembler) : Prop where
  frame : b = { a with diagnostics := b.diagnostics, aborted := b.aborted }
  told : b.diagnostics = a.diagnostics ∧ b.aborted = a.aborted ∨
    ∃ d, b.diagnostics = a.diagnostics.push d ∧ b.aborted = (a.aborted || d.fatal)

/-- Whether an emission was begun and could not be ended: its record and its fixups are there, and
of its words those in front of the first one without a place. -/
structure CutShort (a : Assembler) (p : Placed) (b : Assembler) : Prop where
  frame : b = { a with
    ip := b.ip, diagnostics := b.diagnostics
    image := { a.image with words := b.image.words }
    records := a.records.push p.record, fixups := a.fixups ++ p.fixups.toArray }
  told : a.TellsLength b.diagnostics
  words : ∃ count ≤ p.size, b.ip = a.ip + count ∧ a.NoPlaceFor count ∧
    (∀ k < count, ∀ word ∈ p.blank[k]?,
      Words.get b.image.words (a.image.place a.ip + k) = word) ∧
    ∀ i, i < a.image.place a.ip ∨ a.image.place a.ip + count ≤ i →
      Words.get b.image.words i = Words.get a.image.words i

/-! ## Rejected events -/

omit [Machine] in
/-- A line that succeeds and of which only its length is told is not rejected. -/
theorem not_rejected {α : Type} {v : α} (h : a.TellsLength b.diagnostics) :
    ¬ a.Rejected (.ok v) b := by
  rintro (⟨fault, ⟨⟩⟩ | ⟨d, hd, hnot⟩)
  rcases h with heq | ⟨notice, habout, heq⟩
  · rw [heq, ← Array.length_toList, List.drop_length] at hd
    cases hd
  · rw [heq, warn, Array.toList_push, ← Array.length_toList, List.drop_left,
      List.mem_singleton] at hd
    rw [hd] at hnot
    rw [habout] at hnot
    cases hnot

omit [Machine] in
theorem leftAlone_warn (a : Assembler) (notice : Notice) : a.LeftAlone (a.warn notice none) := by
  refine ⟨rfl, .inr ⟨_, rfl, ?_⟩⟩
  simp [warn]

omit [Machine] in
theorem leftAlone_stop (a : Assembler) (notice : Notice) : a.LeftAlone (a.stop notice none) := by
  refine ⟨rfl, .inr ⟨_, rfl, ?_⟩⟩
  simp [stop]

/-- An emission that is rejected was cut short. -/
theorem cutShort_of_perform (hs : a.Sound) {emission : Emission} {result : Except Fault Unit}
    (h : (perform emission).runFrom a = (result, b)) (hrejected : a.Rejected result b) :
    (∃ why, result = .error (.excess why)) ∧ a.CutShort (a.place emission) b := by
  obtain ⟨diagnostics, values, count, htold, hvalues, hstored, hend⟩ := emitted_or_cut hs emission h
  have hdiagnostics : b.diagnostics = diagnostics := by
    rw [hstored.frame]
    rfl
  rw [← hdiagnostics] at htold
  rcases hend with ⟨rfl, -⟩ | ⟨hwhy, hno⟩
  · exact absurd hrejected (not_rejected htold)
  · refine ⟨hwhy, ?_, htold, count, ?_, ?_, hno, ?_, hstored.kept⟩
    · rw [hstored.frame]
      rfl
    · rw [← Placed.length_blank, ← hvalues, List.length_map]
      exact hstored.count_le
    · rw [hstored.frame]
      rfl
    · intro k hk word hword
      rw [← hvalues, List.getElem?_map, Option.mem_def, Option.map_eq_some_iff] at hword
      obtain ⟨value, hvalue, rfl⟩ := hword
      exact hstored.stored k hk value hvalue

/-- An event that is rejected leaves the assembler alone, or is an emission that was cut short. -/
theorem leftAlone_or_cutShort (hs : a.Sound) {e : Event} {result : Except Fault Unit}
    (h : e.attempt.runFrom a = (result, b)) (hrejected : a.Rejected result b) :
    a.LeftAlone b ∨ (∃ why, result = .error (.excess why)) ∧
      ∃ emission, e = .emit emission ∧ a.CutShort (a.place emission) b := by
  -- An event that tells nothing is not rejected.
  have hsilent : ∀ {b : Assembler}, b.diagnostics = a.diagnostics → ¬ a.Rejected (.ok ()) b :=
    fun heq => not_rejected (.inl heq)
  cases e with
  | count =>
    cases h
    exact absurd hrejected (hsilent rfl)
  | bind name value =>
    cases h
    exact absurd hrejected (hsilent rfl)
  | tell notice =>
    cases h
    exact .inl (leftAlone_warn a notice)
  | halt notice =>
    cases notice with
    | failure fault =>
      cases h
      exact .inl ⟨rfl, .inl ⟨rfl, rfl⟩⟩
    | _ =>
      cases h
      exact .inl (leftAlone_stop a _)
  | activate set =>
    cases h
    exact absurd hrejected (hsilent rfl)
  | origin address =>
    cases h
    exact absurd hrejected (hsilent rfl)
  | length n =>
    cases h
    exact absurd hrejected (hsilent rfl)
  | width n =>
    obtain ⟨rfl, rfl⟩ := Prod.mk.inj h
    by_cases hn : n < 1
    · left
      show a.LeftAlone (a.setWidth n)
      rw [setWidth, if_pos hn]
      exact leftAlone_stop a _
    · refine absurd hrejected (hsilent ?_)
      show (a.setWidth n).diagnostics = a.diagnostics
      rw [setWidth, if_neg hn]
  | align n =>
    obtain ⟨rfl, rfl⟩ := Prod.mk.inj h
    by_cases hn : n < 1 ∨ a.codelen < n
    · left
      show a.LeftAlone (a.align n)
      rw [align, if_pos hn]
      exact leftAlone_stop a _
    · refine absurd hrejected (hsilent ?_)
      show (a.align n).diagnostics = a.diagnostics
      rw [align, if_neg hn]
  | emit emission =>
    obtain ⟨hwhy, hcut⟩ := cutShort_of_perform hs h hrejected
    exact .inr ⟨hwhy, emission, rfl, hcut⟩

/-! ## Rejected lines -/

/-- **A rejected line leaves nothing behind but its number, its label and what is told of it**,
unless it is an emission with words that have no place. -/
theorem rejected_leaves (library : Option Library) (active : Option InstructionSet)
    (calls : List Call) (line : String) (hsource : ∀ lib ∈ library, lib.provided line = none)
    {a b : Assembler} (ha : a = afterCalls library calls (fresh active))
    {result : Except Fault (Option Record)} (hrun : (step library line).runFrom a = (result, b))
    (hrejected : a.Rejected result b) :
    (a.begun line).LeftAlone b ∨ (∃ why, result = .error (.excess why)) ∧
      ∃ emission, lineEvents library (traceNested library Machine.nesting) line a =
          headEvents a (Statement.parse line) ++ [.emit emission] ∧
        (a.begun line).CutShort ((a.begun line).place emission) b := by
  have hs : a.WellFormed library := ha ▸ (wellFormed_fresh active).afterCalls calls
  have hline : _ ∨ ∃ e, bodyEvents library (traceNested library Machine.nesting) (a.begun line)
      (Statement.parse line).body = [e] ∧
        (step library line >>= fun _ => pure ()).runFrom a = e.attempt.runFrom (a.begun line) :=
    exists_bodyEvents hsource
  rcases hline with hnothing | ⟨e, he, hevent⟩
  · -- A line with nothing behind its label is not rejected.
    rw [step, hnothing] at hrun
    obtain ⟨rfl, rfl⟩ := Prod.mk.inj hrun
    exact absurd hrejected (not_rejected (.inl rfl))
  · obtain ⟨outcome, houtcome, hend⟩ : ∃ outcome : Except Fault Unit,
        e.attempt.runFrom (a.begun line) = (outcome, b) ∧
          ∀ fault, outcome = .error fault ↔ result = .error fault := by
      rw [← hevent]
      rcases result with fault | record
      · exact ⟨.error fault, runFrom_bind_error hrun _, fun _ => by simp⟩
      · exact ⟨.ok (), runFrom_bind_ok hrun _, fun _ => by simp⟩
    have hbody : (a.begun line).Rejected outcome b := by
      rcases hrejected with ⟨fault, hfault⟩ | htold
      · exact .inl ⟨fault, (hend fault).2 hfault⟩
      · exact .inr htold
    rcases leftAlone_or_cutShort (hs.toSound.begun line) houtcome hbody with
      halone | ⟨⟨why, hwhy⟩, emission, rfl, hcut⟩
    · exact .inl halone
    · refine .inr ⟨⟨why, (hend _).1 hwhy⟩, emission, ?_, hcut⟩
      rw [lineEvents, replay_headEvents, he]

end

open UsualMachine

/-- An assembler whose words are too wide to be held. -/
def overwide : Assembler :=
  afterCalls none [.line ".width 99999999999999999999"] (fresh none)

theorem rejected_leaves_overwide :
    overwide.Rejected ((step none "a: .data 1 x").runFrom overwide).1
        ((step none "a: .data 1 x").runFrom overwide).2 ∧
      ((overwide.begun "a: .data 1 x").LeftAlone ((step none "a: .data 1 x").runFrom overwide).2 ∨
        (∃ why, ((step none "a: .data 1 x").runFrom overwide).1 = .error (.excess why)) ∧
          ∃ emission, lineEvents none (traceNested none Machine.nesting) "a: .data 1 x" overwide =
              headEvents overwide (Statement.parse "a: .data 1 x") ++ [.emit emission] ∧
            (overwide.begun "a: .data 1 x").CutShort
              ((overwide.begun "a: .data 1 x").place emission)
              ((step none "a: .data 1 x").runFrom overwide).2) := by
  have hfails : ((step none "a: .data 1 x").runFrom overwide).1.isOk = false := by decide +kernel
  have hrejected : overwide.Rejected ((step none "a: .data 1 x").runFrom overwide).1
      ((step none "a: .data 1 x").runFrom overwide).2 := by
    rcases hresult : ((step none "a: .data 1 x").runFrom overwide).1 with fault | record
    · exact .inl ⟨fault, rfl⟩
    · rw [hresult] at hfails
      cases hfails
  have hsource : ∀ lib ∈ (none : Option Library), lib.provided "a: .data 1 x" = none := by
    rintro _ ⟨⟩
  have hcalls : overwide = afterCalls none [.line ".width 99999999999999999999"] (fresh none) := by
    rw [overwide]
  exact ⟨hrejected, rejected_leaves none none _ "a: .data 1 x" hsource hcalls Prod.mk.eta.symm
    hrejected⟩

/-- A data line with words that are too wide leaves its record, its fixup and a word behind,
although it fails. -/
theorem data_overwide_left :
    ((step none "a: .data 1 x").runFrom overwide).1.isOk = false ∧
      ((step none "a: .data 1 x").runFrom overwide).2.records.size = overwide.records.size + 1 ∧
      ((step none "a: .data 1 x").runFrom overwide).2.fixups.size = overwide.fixups.size + 1 ∧
      ((step none "a: .data 1 x").runFrom overwide).2.image.words =
        overwide.image.words.push 0 := by
  decide +kernel

end Retarget.Assembler
