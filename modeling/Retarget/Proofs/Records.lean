import Retarget.Proofs.EarlyFinish
import Retarget.Proofs.Limits

/-!
# Records

A record is noted when its line emits, without a text.  Each time a program is finished, the record
is shown the words at its address, and it stays as it is where finishing fails before its turn.  So
a property that every noted record has and that showing keeps is a property of all records, whatever
calls are made (`Assembler.forall_records_afterCalls`).

Finishing a second time shows the records the same words again.  No fixup waits any more, so all
that is told again is which records are in front of the origin (`Assembler.finish_again`).
-/

namespace Retarget

section

variable [Machine]

/-! ## What records keep -/

namespace Record

/-- What a property of records needs in order to hold of the records of every assembler. -/
structure Lasting (P : Record → Prop) : Prop where
  /-- The record of an emission has it. -/
  noted : ∀ record : Record, 1 ≤ record.line → record.text = "" → P record
  /-- It is kept when a record is shown its words. -/
  shown : ∀ (record : Record) (image : Image), 1 ≤ image.width → P record → P (record.shownIn image)

variable {image : Image} {P : Record → Prop}

/-- Rendering keeps a lasting property, even where it fails. -/
theorem Lasting.renderAll (hP : Lasting P) (hwidth : 1 ≤ image.width) {records : List Record}
    (h : ∀ record ∈ records, P record) :
    ∀ record ∈ (Record.renderAll image true records).2.1, P record := by
  induction records with
  | nil => exact h
  | cons record rest ih =>
    obtain ⟨hrecord, hrest⟩ := List.forall_mem_cons.1 h
    rw [Record.renderAll]
    rcases hrender : record.render image true with fault | ⟨rendered, report⟩
    · exact h
    · obtain ⟨⟨rfl, -⟩, -⟩ := render_eq_ok (by omega) hrender
      exact List.forall_mem_cons.2 ⟨hP.shown record image hwidth hrecord, ih hrest⟩

omit [Machine] in
@[simp] theorem line_shownIn (record : Record) (image : Image) :
    (record.shownIn image).line = record.line := by
  unfold shownIn
  split <;> rfl

omit [Machine] in
@[simp] theorem offset_shownIn (record : Record) (image : Image) :
    (record.shownIn image).offset = record.offset := by
  unfold shownIn
  split <;> rfl

omit [Machine] in
@[simp] theorem nbits_shownIn (record : Record) (image : Image) :
    (record.shownIn image).nbits = record.nbits := by
  unfold shownIn
  split <;> rfl

omit [Machine] in
/-- Having a line lasts. -/
theorem lasting_line : Lasting fun record => 1 ≤ record.line := by
  constructor
  · intro record hline _
    exact hline
  · intro record image _ hline
    rw [line_shownIn]
    exact hline

end Record

namespace Assembler

open Attempt

section Records

variable {library : Option Library} {a : Assembler} {P : Record → Prop}

/-- An event notes at most a record without a text. -/
theorem forall_records_apply (hP : Record.Lasting P) (hs : a.Sound) (hline : 0 < a.line)
    (h : ∀ record ∈ a.records.toList, P record) (e : Event) :
    ∀ record ∈ (a.apply e).records.toList, P record := by
  rw [(continues_apply hs e).records, List.forall_mem_append]
  refine ⟨h, List.forall_mem_map.2 fun p hp => ?_⟩
  cases e with
  | emit emission =>
    obtain rfl := List.mem_singleton.1 hp
    exact hP.noted _ (Int.ofNat_lt.2 hline) rfl
  | _ => cases hp

/-- What lasts holds for all records after events. -/
theorem forall_records_replay (hP : Record.Lasting P) (hs : a.Sound) (hline : 0 < a.line)
    (h : ∀ record ∈ a.records.toList, P record) (events : List Event) :
    ∀ record ∈ (replay events a).records.toList, P record := by
  induction events generalizing a with
  | nil => exact h
  | cons e rest ih =>
    have hcounted : 0 < (a.apply e).line := Nat.lt_of_lt_of_le hline (le_line_apply hs e)
    exact ih (hs.apply e) hcounted (forall_records_apply hP hs hline h e)

/-- The events of a line note records of counted lines: the first of them counts the line. -/
theorem forall_records_lineEvents (hP : Record.Lasting P) (hs : a.Sound)
    (h : ∀ record ∈ a.records.toList, P record)
    (nested : List String → Assembler → List Event) (line : String) :
    ∀ record ∈ (replay (lineEvents library nested line a) a).records.toList, P record := by
  obtain ⟨rest, hrest⟩ : ∃ rest, lineEvents library nested line a = .count :: rest := ⟨_, rfl⟩
  rw [hrest, replay_cons]
  exact forall_records_replay hP (hs.apply .count) (Nat.succ_pos a.line) h rest

/-- What lasts holds for all records after a line. -/
theorem forall_records_step (hP : Record.Lasting P) (hs : a.Sound)
    (h : ∀ record ∈ a.records.toList, P record) (line : String) :
    ∀ record ∈ ((step library line).runFrom a).2.records.toList, P record := by
  -- What is told of a failure changes no record.
  have hguarded : (guarded (step library line) a).records =
      ((step library line).runFrom a).2.records := by
    rcases hstep : (step library line).runFrom a with ⟨fault | record, b⟩
    · rw [guarded_of_error hstep]
      rfl
    · rw [guarded_of_ok hstep]
  rw [← hguarded, step, guarded_assembleLine (guarded_assembleNested library Machine.nesting)]
  exact forall_records_lineEvents hP hs h _ line

/-- What lasts holds for all records after lines. -/
theorem forall_records_assembleLines (hP : Record.Lasting P) (ha : a.WellFormed library)
    (h : ∀ record ∈ a.records.toList, P record) (lines : List String) :
    ∀ record ∈ (assembleLines library lines a).records.toList, P record := by
  rw [assembleLines_eq_replay, trace]
  induction lines generalizing a with
  | nil => exact h
  | cons line rest ih =>
    rw [traceLines]
    split
    · exact h
    · rw [replay_append]
      exact ih (ha.lineEvents (proper_traceNested library Machine.nesting) line)
        (forall_records_lineEvents hP ha.toSound h _ line)

/-- What lasts holds for all records after finishing. -/
theorem forall_records_finish (hP : Record.Lasting P) (ha : a.WellFormed library)
    (h : ∀ record ∈ a.records.toList, P record) :
    ∀ record ∈ (finish.runFrom a).2.records.toList, P record := by
  have hkept := ha.safe_resolveFixups.state
  have hsame : (resolveFixups.runFrom a).2.records = a.records := by
    rw [runFrom_resolveFixups, warnAll_eq]
  -- Fixups change no record, rendering keeps the property, and padding comes behind both.
  rw [finish]
  rcases hresolve : resolveFixups.runFrom a with ⟨fault | u, b⟩
  · rw [runFrom_bind_error hresolve]
    rw [hresolve] at hsame
    rwa [hsame]
  · rw [hresolve] at hkept hsame
    rw [runFrom_bind_ok hresolve]
    have hwidth : 1 ≤ b.image.width := hkept.image_width ▸ hkept.width_pos
    have hrendered : ∀ record ∈ (renderRecords.runFrom b).2.records.toList, P record := by
      rw [runFrom_renderRecords, warnAll_eq]
      exact hP.renderAll hwidth (hsame ▸ h)
    rcases hrender : renderRecords.runFrom b with ⟨fault | u, c⟩
    · rw [runFrom_bind_error hrender]
      rwa [hrender] at hrendered
    · rw [runFrom_bind_ok hrender, runFrom_bind_ok (runFrom_get c)]
      rw [hrender] at hrendered
      rcases hpad : c.image.pad c.codelen with fault | image
      · exact hrendered
      · exact hrendered

/-- What lasts holds for all records after a call. -/
theorem forall_records_call (hP : Record.Lasting P) (ha : a.WellFormed library)
    (h : ∀ record ∈ a.records.toList, P record) (call : Call) :
    ∀ record ∈ ((call.attempt library).runFrom a).2.records.toList, P record := by
  cases call with
  | line text =>
    have hstep : ∀ record ∈ ((step library text).runFrom a).2.records.toList, P record :=
      forall_records_step hP ha.toSound h text
    rcases hrun : (step library text).runFrom a with ⟨fault | record, b⟩
    · rw [hrun] at hstep
      rwa [Call.attempt, runFrom_bind_error hrun]
    · rw [hrun] at hstep
      rwa [Call.attempt, runFrom_bind_ok hrun]
  | lines texts => exact forall_records_assembleLines hP ha h texts
  | assemble text =>
    rw [Call.attempt, Assembler.assemble, runFrom_bind_ok (runFrom_modify _ _)]
    exact forall_records_finish hP (ha.assembleLines _)
      (forall_records_assembleLines hP ha h _)
  | finish => exact forall_records_finish hP ha h

/-- **A lasting property holds of the records of every assembler.** -/
theorem forall_records_afterCalls (hP : Record.Lasting P) (library : Option Library)
    (active : Option InstructionSet) (calls : List Call) :
    ∀ record ∈ (afterCalls library calls (fresh active)).records.toList, P record := by
  suffices hcalls : ∀ a : Assembler, a.WellFormed library →
      (∀ record ∈ a.records.toList, P record) →
      ∀ record ∈ (afterCalls library calls a).records.toList, P record by
    refine hcalls (fresh active) (wellFormed_fresh active) ?_
    cases active <;> exact List.forall_mem_nil _
  intro a ha h
  induction calls generalizing a with
  | nil => exact h
  | cons call rest ih => exact ih _ (ha.call call).1 (forall_records_call hP ha h call)

end Records

end Assembler

/-! ## Finishing again -/

namespace Record

omit [Machine] in
/-- Words are shown the same again. -/
theorem shownIn_shownIn (record : Record) (image : Image) :
    (record.shownIn image).shownIn image = record.shownIn image := by
  by_cases hbelow : record.offset < image.origin
  · have hsame : record.shownIn image = record := if_pos hbelow
    rw [hsame, hsame]
  · have hbelow' : ¬ (record.shownIn image).offset < image.origin := by rwa [offset_shownIn]
    rw [shownIn.eq_1 (record.shownIn image), if_neg hbelow', shownIn, if_neg hbelow]
    rfl

/-- A record that has been shown can be shown again. -/
theorem WithinLimits.shownIn {image : Image} {record : Record} (h : record.WithinLimits image) :
    (record.shownIn image).WithinLimits image := by
  obtain ⟨htold, htext⟩ := h
  constructor
  · rw [offset_shownIn]
    exact htold
  · rw [offset_shownIn, shownIn_shownIn]
    exact htext

/-- A record can be shown in an image that has grown. -/
theorem WithinLimits.grow {image : Image} {record : Record} (h : record.WithinLimits image)
    (length : Nat) :
    record.WithinLimits { image with words := Words.grow image.words length } := by
  refine ⟨h.told, ?_⟩
  rw [shownIn_grow]
  exact h.text

/-- What is told of a record in front of the origin. -/
def warning (origin : Int) (record : Record) : Diagnostic :=
  ⟨.belowOrigin record.offset origin, record.line, false⟩

end Record

namespace Assembler

open Attempt

section Again

variable {library : Option Library} {a b c : Assembler}

/-- One warning for each record in front of the origin, in their order. -/
def warningsBelow (a : Assembler) : List Diagnostic :=
  (a.records.toList.filter fun record => record.offset < a.origin).map (Record.warning a.origin)

/-- Without fixups, what is left to be told is which records are below the origin. -/
theorem unserved_eq_warningsBelow (hs : a.Sound) (hfixups : a.fixups = #[])
    (hlines : ∀ record ∈ a.records.toList, 1 ≤ record.line) :
    (a.unserved.map fun report =>
      (⟨report.notice, a.lineOr (some report.line), false⟩ : Diagnostic)) = a.warningsBelow := by
  rw [unserved, hfixups, warningsBelow, ← hs.image_origin]
  show List.map _ (List.filterMap _ _) = _
  generalize a.records.toList = records at hlines
  induction records with
  | nil => rfl
  | cons record rest ih =>
    obtain ⟨hline, hrest⟩ := List.forall_mem_cons.1 hlines
    have hlineOr : a.lineOr (some record.line) = record.line := if_neg (by omega)
    by_cases hbelow : record.offset < a.image.origin
    · have htold : Record.below? a.image record =
          some ⟨.belowOrigin record.offset a.image.origin, record.line⟩ := if_pos hbelow
      rw [List.filterMap_cons_some htold, List.filter_cons_of_pos (by simpa using hbelow),
        List.map_cons, List.map_cons, ih hrest, hlineOr]
      rfl
    · have hquiet : Record.below? a.image record = none := if_neg hbelow
      rw [List.filterMap_cons_none hquiet, List.filter_cons_of_neg (by simpa using hbelow),
        ih hrest]

/-- Finishing keeps an assembler within the limits. -/
theorem WithinLimits.of_finish (h : a.WithinLimits) (hs : a.Sound)
    (hfinish : finish.runFrom a = (.ok (), b)) : b.WithinLimits := by
  have hframe := frame_of_finish hfinish
  have hfinished := hs.finished hfinish
  have hflips : b.flips = [] := by
    rw [flips, hframe]
    rfl
  have himage : b.image.flipAll b.flips = b.image := by
    rw [hflips, Image.flipAll, Words.flipAll_nil]
  refine ⟨?_, ?_, ?_⟩
  · rw [hframe]
    exact List.forall_mem_nil _
  · rw [hfinished.records, himage]
    refine List.forall_mem_map.2 fun record hrecord => ?_
    rw [hfinished.image]
    exact ((h.records record hrecord).grow a.codelen.toNat).shownIn
  · rw [hframe]
    exact h.length

/-- The image and the records of a finished assembler stay as they are. -/
theorem Finished.again (hab : Finished a b) (hframe : b.codelen = a.codelen)
    (hfixups : b.fixups = #[]) (hbc : Finished b c) :
    c.image = b.image ∧ c.records = b.records := by
  have hflips : b.flips = [] := by
    rw [flips, hfixups]
    rfl
  have himage : c.image = b.image := by
    rw [hbc.image, hflips, Words.flipAll_nil, hframe, hab.image, Words.grow_grow]
  refine ⟨himage, Array.toList_inj.1 ?_⟩
  rw [hbc.records, himage, hab.records, List.map_map]
  exact List.map_congr_left fun record _ => record.shownIn_shownIn b.image

/-- **Finishing again only warns again of the records in front of the origin.**  Whatever calls have
been made, once an assembler is finished it can be finished again; no fixup waits for that, and
nothing changes but that each record in front of the origin is told once more. -/
theorem finish_again (library : Option Library) (active : Option InstructionSet)
    (calls : List Call) {b : Assembler}
    (h : finish.runFrom (afterCalls library calls (fresh active)) = (.ok (), b)) :
    b.fixups = #[] ∧ finish.runFrom b =
      (.ok (), { b with diagnostics := b.diagnostics ++ b.warningsBelow.toArray }) := by
  have ha : (afterCalls library calls (fresh active)).WellFormed library :=
    (wellFormed_fresh active).afterCalls calls
  have hb : b.WellFormed library := by
    have hsafe := ha.safe_finish.state
    rwa [h] at hsafe
  have hlines : ∀ record ∈ b.records.toList, 1 ≤ record.line := by
    have hrecords := forall_records_finish Record.lasting_line ha
      (forall_records_afterCalls Record.lasting_line library active calls)
    rwa [h] at hrecords
  have hframe := frame_of_finish h
  have hfixups : b.fixups = #[] := by rw [hframe]
  have hcodelen : b.codelen = (afterCalls library calls (fresh active)).codelen := by rw [hframe]
  have hlimits : b.WithinLimits :=
    (ha.bounded_finish.ok_iff.1 ⟨(), congrArg Prod.fst h⟩).of_finish ha.toSound h
  -- The second run is within the same limits, so it ends well; what it tells is about records only.
  obtain ⟨⟨⟩, hok⟩ := hb.bounded_finish.ok hlimits
  rcases hrun : finish.runFrom b with ⟨result, c⟩
  rw [hrun] at hok
  obtain rfl : result = .ok () := hok
  have htold := told_of_finish hb.toSound hrun
  rw [unserved_eq_warningsBelow hb.toSound hfixups hlines] at htold
  have hdiagnostics : c.diagnostics = b.diagnostics ++ b.warningsBelow.toArray := by
    rw [← Array.toList_inj, htold, Array.toList_append]
  obtain ⟨himage, hrecords⟩ :=
    (ha.toSound.finished h).again hcodelen hfixups (hb.toSound.finished hrun)
  refine ⟨hfixups, ?_⟩
  rw [frame_of_finish hrun, himage, hrecords, hdiagnostics, ← hfixups]

end Again

end Assembler

end

namespace Assembler

open UsualMachine in
/-- Two words wait for a symbol that is never bound, and the first record is left in front of a
raised origin.  Of the three warnings that finishing gives, only the one about the record is
repeated. -/
theorem finish_again_raised :
    let calls := [Call.lines [".data 1 missing", ".org 4", ".width 8"], .line ".len 3",
      .line ".data 7 missing"]
    let a := afterCalls none calls (fresh none)
    let b := (finish.runFrom a).2
    a.fixups.size = 2 ∧ a.diagnostics.size = 0 ∧ b.diagnostics.size = 3 ∧
      b.image.words.size = 3 ∧ b.warningsBelow.length = 1 ∧ b.fixups = #[] ∧
      finish.runFrom b =
        (.ok (), { b with diagnostics := b.diagnostics ++ b.warningsBelow.toArray }) := by
  intro calls a b
  have hwaiting : a.fixups.size = 2 := by decide +kernel
  have hquiet : a.diagnostics.size = 0 := by decide +kernel
  have htold : b.diagnostics.size = 3 := by decide +kernel
  have hsize : b.image.words.size = 3 := by decide +kernel
  have hwarnings : b.warningsBelow.length = 1 := by decide +kernel
  have hok : (finish.runFrom a).1.isOk = true := by decide +kernel
  exact ⟨hwaiting, hquiet, htold, hsize, hwarnings, finish_again none none calls (eq_of_isOk hok)⟩

end Assembler

end Retarget
