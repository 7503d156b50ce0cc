import Retarget.Proofs.InStep
import Retarget.Proofs.Placement

/-!
# Shifted assemblers

Here two runs are compared: one from an assembler, and one from the same assembler with all its
addresses shifted by a distance and with other symbols (`Assembler.shift`).  No line reads the
symbols, and without a move of the address no line depends on where it stands.  So both runs go
through the same events, up to the addresses that labels are bound to (`trace_shift`), and the
assemblers that they end in differ as they did before (`replay_shift`).

Finishing is the first to read the symbols.  It keeps two runs apart by the same shift if it judges
their fixups alike and no record is left in front of the image (`mirrors_finish`).  Both conditions
are free where nothing is shifted and the symbols have the same values.
-/

namespace Retarget

open Attempt

/-! ## Shifted parts -/

/-- The value of a symbol, shifted if it is an address. -/
def SymbolValue.shift (d : Int) : SymbolValue → SymbolValue
  | number n => number (n + d)
  | text s => text s

/-- A record at a shifted address. -/
def Record.shift (d : Int) (record : Record) : Record :=
  { record with offset := record.offset + d }

/-- A fixup at a shifted address. -/
def Fixup.shift (d : Int) (fix : Fixup) : Fixup :=
  { fix with ofs := fix.ofs + d }

/-- The same words from a shifted origin on. -/
def Image.shift (d : Int) (image : Image) : Image :=
  { image with origin := image.origin + d }

/-- An assembler with other symbols. -/
def Assembler.withSymbols (symbols : Symbols) (a : Assembler) : Assembler :=
  { a with symbols }

/-- An assembler with all its addresses shifted, and with these symbols. -/
def Assembler.shift (d : Int) (symbols : Symbols) (a : Assembler) : Assembler :=
  { a with
    ip := a.ip + d
    origin := a.origin + d
    symbols
    image := a.image.shift d
    records := a.records.map (Record.shift d)
    fixups := a.fixups.map (Fixup.shift d) }

@[simp] theorem SymbolValue.shift_zero (value : SymbolValue) : value.shift 0 = value := by
  cases value with
  | number n => rw [shift, Int.add_zero]
  | text s => rfl

@[simp] theorem Record.shift_zero (record : Record) : record.shift 0 = record := by
  rw [shift, Int.add_zero]

@[simp] theorem Fixup.shift_zero (fix : Fixup) : fix.shift 0 = fix := by
  rw [shift, Int.add_zero]

@[simp] theorem Image.shift_zero (image : Image) : image.shift 0 = image := by
  rw [shift, Int.add_zero]

@[simp] theorem Assembler.shift_zero (symbols : Symbols) (a : Assembler) :
    a.shift 0 symbols = a.withSymbols symbols := by
  simp [shift, withSymbols, show Record.shift 0 = id from funext Record.shift_zero,
    show Fixup.shift 0 = id from funext Fixup.shift_zero]

/-- A shifted address has the same place in a shifted image. -/
theorem Image.index_shift {d : Int} {image : Image} {address : Int}
    (h : image.origin ≤ address) :
    (image.shift d).index (address + d) = image.index address := by
  have hplace : image.index address = .ok (image.place address) := index_eq_ok.2 ⟨h, rfl⟩
  rw [hplace, index_eq_ok, shift, place, place]
  show image.origin + d ≤ address + d ∧ _ = (address + d - (image.origin + d)).toNat
  omega

/-- Fixups are queued at shifted addresses. -/
theorem Assembler.queue_shift {a : Assembler} {d : Int} {symbols : Symbols}
    (fixups : List Fixup) :
    { a.shift d symbols with
        fixups := (a.shift d symbols).fixups ++ (fixups.map (Fixup.shift d)).toArray } =
      { a with fixups := a.fixups ++ fixups.toArray }.shift d symbols := by
  simp only [shift, Array.map_append, List.map_toArray]

/-- The fixups of a data line are at shifted addresses. -/
theorem Assembler.dataFixups_shift (address width d : Int) (line : Nat) (tokens : List String) :
    dataFixups (address + d) width line tokens =
      (dataFixups address width line tokens).map (Fixup.shift d) := by
  rw [dataFixups, dataFixups, List.map_filterMap]
  refine List.filterMap_congr fun entry _ => ?_
  obtain ⟨place, token⟩ := entry
  simp only
  split
  · rfl
  · simp only [wordFixup, Fixup.shift, Option.map_some]
    rw [Int.add_right_comm]

/-- So are those of an instruction. -/
theorem Instruction.fixupsOf_shift (address line d : Int) (nbits bitofs : Nat)
    (fields : List Field) :
    fixupsOf (address + d) line nbits bitofs fields =
      (fixupsOf address line nbits bitofs fields).map (Fixup.shift d) := by
  induction fields generalizing bitofs with
  | nil => rfl
  | cons field rest ih =>
    rw [fixupsOf, fixupsOf, List.map_append, ih]
    cases field.pending <;> rfl

/-- Warnings do not depend on where the program is. -/
theorem Assembler.warnAll_shift {a : Assembler} {d : Int} {symbols : Symbols}
    (reports : List Report) :
    (a.shift d symbols).warnAll reports = (a.warnAll reports).shift d symbols := by
  rw [warnAll_eq, warnAll_eq]
  rfl

variable [Machine]

/-! ## Shifted images -/

namespace Image

variable {d : Int} {image : Image} {address : Int}

/-- A shifted image grows as the image does. -/
theorem pad_shift (image : Image) (d length : Int) :
    (image.shift d).pad length = (image.pad length).map (shift d) := by
  rw [pad, pad]
  show (Capacity.checkGrowth image.words.size length.toNat >>= _) = _
  rcases Capacity.checkGrowth image.words.size length.toNat with fault | u <;> rfl

/-- A word behind the origin is changed in the same way wherever the image is. -/
theorem mirrors_modifyAt (h : image.origin ≤ address) (change : Nat → Except Fault Nat) :
    Mirrors (shift d) (modifyAt address change) (modifyAt (address + d) change) image := by
  rw [Mirrors, runFrom, runFrom, modifyAt, modifyAt, index_shift h]
  rcases image.index address with fault | i
  · rfl
  · simp only [pad_shift]
    rcases image.pad (i + 1) with fault | grown
    · rfl
    · have hword : Words.get (image.shift d).words i = Words.get image.words i := rfl
      simp only [Except.map, hword]
      rcases change (Words.get image.words i) with fault | word <;> rfl

/-- A word is put into a shifted image at the shifted address. -/
theorem mirrors_put (h : image.origin ≤ address) (value : Int) :
    Mirrors (shift d) (put address value) (put (address + d) value) image :=
  mirrors_modifyAt h fun _ => lowBits image.width value

/-- Bits of a shifted image are flipped at the shifted address. -/
theorem mirrors_flip (h : image.origin ≤ address) (value : Int) :
    Mirrors (shift d) (flip address value) (flip (address + d) value) image :=
  mirrors_modifyAt h fun old => do
    let kept ← lowBits image.width old
    let flipped ← lowBits image.width value
    .ok (kept ^^^ flipped)

end Image

/-! ## Shifted events -/

namespace Event

/-- An event with the address that it binds shifted. -/
def shift (d : Int) : Event → Event
  | .bind name value => .bind name (value.shift d)
  | e => e

/-- Whether an event moves the address to a given place. -/
def isMove : Event → Bool
  | .origin _ => true
  | .align _ => true
  | _ => false

/-- Whether an event does not hinder a shift: it moves the address to no given place, or nothing is
shifted. -/
def Movable (d : Int) (e : Event) : Prop :=
  d = 0 ∨ e.isMove = false

/-- The symbols after an event. -/
def bindIn (e : Event) (symbols : Symbols) : Symbols :=
  match e with
  | .bind name value => Bindings.bind symbols name value
  | _ => symbols

@[simp] theorem shift_zero (e : Event) : e.shift 0 = e := by
  cases e with
  | bind name value => rw [shift, SymbolValue.shift_zero]
  | _ => rfl

end Event

/-- The symbols after events. -/
def Bindings.after (symbols : Symbols) (events : List Event) : Symbols :=
  events.foldl (fun symbols e => e.bindIn symbols) symbols

namespace Assembler

variable {a : Assembler} {d : Int} {symbols : Symbols}

/-- A shifted assembler stores words as the assembler does. -/
theorem mirrors_store (hs : a.Sound) (value : Int) :
    Mirrors (shift d symbols) (store value) (store value) a := by
  have horigin : a.image.origin ≤ a.ip := hs.image_origin ▸ hs.origin_le
  refine .get_bind (.bind (.on (Image.mirrors_put horigin value) rfl fun image => rfl) ?_)
  intro u b hb
  refine .modify ?_
  rw [shift, shift, Int.add_right_comm]

/-- An assembler that has stored a word is sound. -/
theorem Sound.of_store {b : Assembler} (hs : a.Sound) {value : Int}
    (h : (store value).runFrom a = (.ok (), b)) : b.Sound := by
  by_cases hroom : a.image.Reaches a.ip ∧ Capacity.fieldBits a.width = .ok a.width.toNat
  · rw [store_of_reaches hs hroom.1 hroom.2] at h
    cases h
    exact hs.withWord hroom.1 value
  · obtain ⟨why, words, hstore, -⟩ := store_of_error hs hroom value
    rw [hstore] at h
    cases h

/-- Storing words is the same wherever the image is. -/
theorem guarded_store_shift (hs : a.Sound) (values : List Int) :
    guarded (Attempt.each store values) (a.shift d symbols) =
      (guarded (Attempt.each store values) a).shift d symbols :=
  guarded_of_mirrors (fun _ _ => rfl) (.each Sound hs (fun value _ _ ht => mirrors_store ht value)
    fun _ _ _ _ ht hstore => ht.of_store hstore)

/-- A shifted assembler emits words as the assembler does. -/
theorem guarded_emitWords_shift (hs : a.Sound) (values : List Int) :
    guarded (emitWords values) (a.shift d symbols) =
      (guarded (emitWords values) a).shift d symbols := by
  have hnoted : { a with
      records := a.records.push
        { line := a.line, offset := a.ip, nbits := a.width * values.length } }.Sound :=
    hs.congr rfl rfl rfl rfl
  rw [guarded_emitWords, guarded_emitWords, ← guarded_store_shift hnoted, shift, shift]
  simp only [Array.map_push]
  rfl

/-- A shifted assembler emits numbers as the assembler does. -/
theorem guarded_emit_shift (hs : a.Sound) (opcode nbits : Nat) :
    guarded (emit opcode nbits) (a.shift d symbols) =
      (guarded (emit opcode nbits) a).shift d symbols := by
  have hnoted : { a with
      records := a.records.push { line := a.line, offset := a.ip, nbits := nbits } }.Sound :=
    hs.congr rfl rfl rfl rfl
  have hrecord : { a.shift d symbols with
      records := (a.shift d symbols).records.push
        { line := a.line, offset := a.ip + d, nbits := nbits } } =
      { a with
        records := a.records.push
          { line := a.line, offset := a.ip, nbits := nbits } }.shift d symbols := by
    simp only [shift, Array.map_push]
    rfl
  have hwidth : 1 ≤ (a.shift d symbols).width := hs.width_pos
  rw [guarded_emit hwidth, guarded_emit hs.width_pos]
  rcases hbits : Capacity.fieldBits a.width with fault | bits
  · have hshifted : Capacity.fieldBits (a.shift d symbols).width = .error fault := hbits
    simp only [hshifted]
    exact congrArg (stop (.failure fault) none) hrecord
  · have hshifted : Capacity.fieldBits (a.shift d symbols).width = .ok bits := hbits
    simp only [hshifted]
    exact (congrArg (guarded _) hrecord).trans (guarded_store_shift hnoted _)

/-- A shifted assembler emits instructions as the assembler does. -/
theorem guarded_emitInstruction_shift (hs : a.Sound) (fields : List Field) :
    guarded (emitInstruction (Instruction.ofFields (a.ip + d) a.line fields))
        (a.shift d symbols) =
      (guarded (emitInstruction (Instruction.ofFields a.ip a.line fields)) a).shift d symbols := by
  obtain ⟨notice, hnotice, -⟩ := lengthNotice_eq_ok (Instruction.lengthOf fields) hs.width_pos
  have hqueue : ∀ b : Assembler, b.Sound →
      guarded (emit (Instruction.pack fields) (Instruction.lengthOf fields))
        { b.shift d symbols with fixups := (b.shift d symbols).fixups ++
          (Instruction.fixupsOf (a.ip + d) a.line (Instruction.lengthOf fields) 0
            fields).toArray } =
      (guarded (emit (Instruction.pack fields) (Instruction.lengthOf fields))
        { b with fixups := b.fixups ++
          (Instruction.fixupsOf a.ip a.line (Instruction.lengthOf fields) 0 fields).toArray }).shift
            d symbols := by
    intro b hb
    rw [Instruction.fixupsOf_shift, queue_shift]
    refine guarded_emit_shift ?_ _ _
    exact hb.congr rfl rfl rfl rfl
  rw [emitInstruction, emitInstruction, guarded_get_bind, guarded_get_bind]
  have hshifted : lengthNotice (Instruction.ofFields (a.ip + d) a.line fields).nbits
      (a.shift d symbols).width = .ok notice := hnotice
  have hplain : lengthNotice (Instruction.ofFields a.ip a.line fields).nbits a.width =
      .ok notice := hnotice
  simp only [hshifted, hplain, guarded_ofExcept_ok_bind]
  cases notice with
  | none => exact hqueue a hs
  | some notice => exact hqueue (a.warn notice none) (hs.apply (.tell notice))

/-- **An emission is the same wherever it stands.** -/
theorem apply_emit_shift (hs : a.Sound) (emission : Emission) :
    (a.shift d symbols).apply (.emit emission) = (a.apply (.emit emission)).shift d symbols := by
  rw [apply, apply]
  cases emission with
  | code e =>
    simp only [perform, guarded_get_bind, guarded_bind_pure]
    exact guarded_emitInstruction_shift hs e.fields
  | data tokens =>
    simp only [perform, obeyData, guarded_modify_bind, guarded_bind_pure]
    have hfixups : dataFixups (a.shift d symbols).ip (a.shift d symbols).width
        (a.shift d symbols).line tokens =
        (dataFixups a.ip a.width a.line tokens).map (Fixup.shift d) :=
      dataFixups_shift a.ip a.width d a.line tokens
    rw [hfixups, queue_shift]
    refine guarded_emitWords_shift ?_ _
    exact hs.congr rfl rfl rfl rfl
  | text characters =>
    simp only [perform, guarded_bind_pure]
    exact guarded_emitWords_shift hs _

/-- **An event does the same to shifted assemblers.** -/
theorem apply_shift (hs : a.Sound) {e : Event} (he : e.Movable d) :
    (a.shift d symbols).apply (e.shift d) =
      (a.apply e).shift d ((e.shift d).bindIn symbols) := by
  cases e with
  | emit emission => exact apply_emit_shift hs emission
  | width n =>
    show (a.shift d symbols).setWidth n = (a.setWidth n).shift d symbols
    rw [setWidth, setWidth]
    split <;> rfl
  | origin address =>
    -- A given address is not shifted, so nothing else may be.
    obtain rfl : d = 0 := he.resolve_right (by rintro ⟨⟩)
    rw [shift_zero, shift_zero]
    rfl
  | align n =>
    obtain rfl : d = 0 := he.resolve_right (by rintro ⟨⟩)
    rw [shift_zero, shift_zero]
    show (a.withSymbols symbols).align n = (a.align n).withSymbols symbols
    rw [align, align]
    show (if n < 1 ∨ a.codelen < n then _ else _) = _
    split <;> rfl
  | _ => rfl

/-- A sound assembler stays sound. -/
theorem Sound.replay (hs : a.Sound) (events : List Event) : (Assembler.replay events a).Sound := by
  induction events generalizing a with
  | nil => exact hs
  | cons e rest ih => exact ih (hs.apply e)

theorem Sound.assembleLines (hs : a.Sound) (library : Option Library) (lines : List String) :
    (Assembler.assembleLines library lines a).Sound := by
  rw [assembleLines_eq_replay]
  exact hs.replay _

/-- **Events do the same to shifted assemblers.** -/
theorem replay_shift (hs : a.Sound) {events : List Event} (h : ∀ e ∈ events, e.Movable d) :
    replay (events.map (Event.shift d)) (a.shift d symbols) =
      (replay events a).shift d (symbols.after (events.map (Event.shift d))) := by
  induction events generalizing a symbols with
  | nil => rfl
  | cons e rest ih =>
    obtain ⟨he, hrest⟩ := List.forall_mem_cons.1 h
    rw [List.map_cons, replay_cons, apply_shift hs he, ih (hs.apply e) hrest]
    rfl

/-- An event binds the symbols that it says. -/
theorem symbols_apply (hs : a.Sound) (e : Event) : (a.apply e).symbols = e.bindIn a.symbols := by
  cases e with
  | emit emission => rw [(emitted hs emission).frame]; rfl
  | width n =>
    rw [apply, setWidth]
    split <;> rfl
  | align n =>
    rw [apply, align]
    split <;> rfl
  | _ => rfl

/-- The symbols after events are those that the events bind. -/
theorem symbols_replay (hs : a.Sound) (events : List Event) :
    (replay events a).symbols = a.symbols.after events := by
  induction events generalizing a with
  | nil => rfl
  | cons e rest ih =>
    rw [replay_cons, ih (hs.apply e), symbols_apply hs e]
    rfl

/-- The symbols after lines are those that the events of the lines bind. -/
theorem symbols_assembleLines (hs : a.Sound) {library : Option Library} {lines : List String} :
    (assembleLines library lines a).symbols = a.symbols.after (trace library lines a) := by
  rw [assembleLines_eq_replay, symbols_replay hs]

/-! ## Shifted programs -/

/-- An instruction has shifted events in a shifted assembler. -/
theorem instructionEvents_shift (a : Assembler) (d : Int) (symbols : Symbols) (text : String) :
    instructionEvents (a.shift d symbols) text =
      (instructionEvents a text).map (Event.shift d) := by
  show instructionEvents a text = _
  rw [instructionEvents]
  repeat' split
  all_goals rfl

/-- Shifted assemblers stay in step, as long as the address is moved to no given place. -/
theorem inStep_shift (d : Int) :
    InStep (fun a b => a.Sound ∧ ∃ symbols, b = a.shift d symbols)
      (fun e e' => e.shift d = e') (Event.Movable d) where
  aborted := by
    rintro a _ ⟨-, symbols, rfl⟩
    rfl
  apply := by
    rintro a _ e _ ⟨hs, symbols, rfl⟩ rfl he
    exact ⟨hs.apply e, _, apply_shift hs he⟩
  label := by
    rintro a _ ⟨-, symbols, rfl⟩ name
    rfl
  instruction := by
    rintro a _ ⟨-, symbols, rfl⟩ text -
    rw [instructionEvents_shift, List.forall₂_map_right_iff, List.forall₂_same]
    exact fun _ _ => rfl
  same := by
    intro e he
    cases e with
    | bind name value =>
      cases value with
      | number n => cases he
      | text s => rfl
    | _ => rfl

section Programs

variable {library : Option Library}

/-- **A shifted program goes through the shifted events.** -/
theorem trace_shift (hs : a.Sound) {lines : List String}
    (h : ∀ e ∈ trace library lines a, e.Movable d) (symbols : Symbols) :
    trace library lines (a.shift d symbols) =
      (trace library lines a).map (Event.shift d) := by
  have hmatched := (inStep_shift d).trace lines a _ ⟨hs, symbols, rfl⟩ h
  rw [← List.forall₂_map_left_iff (R := Eq), List.forall₂_eq_eq_eq] at hmatched
  exact hmatched.symm

/-- **A shifted program ends in a shifted assembler.** -/
theorem assembleLines_shift (hs : a.Sound) {lines : List String}
    (h : ∀ e ∈ trace library lines a, e.Movable d) (symbols : Symbols) :
    assembleLines library lines (a.shift d symbols) =
      (assembleLines library lines a).shift d
        (symbols.after ((trace library lines a).map (Event.shift d))) := by
  rw [assembleLines_eq_replay, assembleLines_eq_replay, trace_shift hs h, replay_shift hs h]

end Programs

end Assembler

/-! ## Shifted fixups -/

namespace Image

/-- Changing a word moves no image. -/
theorem origin_modifyAt (image : Image) (address : Int) (change : Nat → Except Fault Nat) :
    ((modifyAt address change).runFrom image).2.origin = image.origin := by
  rw [runFrom, modifyAt]
  rcases image.index address with fault | i
  · rfl
  · simp only
    rcases hpad : image.pad (i + 1) with fault | grown
    · rfl
    · obtain ⟨-, rfl⟩ := pad_eq_ok.1 hpad
      simp only
      rcases change (Words.get image.words i) with fault | word <;> rfl

end Image

/-- A fixup behind the origin is filled in the same way wherever it stands. -/
theorem Fixup.mirrors_apply {image : Image} {fix : Fixup} {d : Int} (h : image.origin ≤ fix.ofs)
    (value : Int) :
    Mirrors (Image.shift d) (fix.apply value) ((fix.shift d).apply value) image := by
  have hsame : (fix.shift d).patches (image.shift d).width value =
      fix.patches image.width value := rfl
  rw [Mirrors, runFrom, runFrom, apply, apply, hsame]
  rcases fix.patches image.width value with fault | patches
  · rfl
  · have heach : Mirrors (Image.shift d)
        (Attempt.each (fun p : Nat × Nat => Image.flip (fix.ofs + p.1) p.2) patches)
        (Attempt.each (fun p : Nat × Nat => Image.flip (fix.ofs + d + p.1) p.2) patches)
        image := by
      refine .each (fun t => t.origin = image.origin) rfl ?_ ?_
      · rintro ⟨k, word⟩ hp t ht
        have horigin : t.origin ≤ fix.ofs + k := by omega
        show Mirrors _ (Image.flip (fix.ofs + k) word) (Image.flip (fix.ofs + d + k) word) t
        rw [Int.add_right_comm]
        exact Image.mirrors_flip horigin word
      · rintro ⟨k, word⟩ hp t u ht hflip
        have horigin := Image.origin_modifyAt t (fix.ofs + k) fun old => do
          let kept ← lowBits t.width old
          let flipped ← lowBits t.width word
          .ok (kept ^^^ flipped)
        rw [← ht, ← horigin]
        exact congrArg (fun r => r.2.origin) hflip.symm
    exact heach

namespace Resolution

variable {r : Resolution} {d : Int} {symbols symbols' : String → Option SymbolValue}

/-- A resolution in a shifted image. -/
def shift (d : Int) (r : Resolution) : Resolution :=
  { r with image := r.image.shift d }

omit [Machine] in
/-- What is told while fixups are resolved does not depend on the image. -/
theorem mirrors_report (notice : Notice) (line : Int) :
    Mirrors (shift d) (report notice line) (report notice line) r :=
  .bind (.ofExcept _) fun _ _ _ => .modify rfl

/-- A fixup that is judged alike is resolved alike. -/
theorem mirrors_resolve {fix : Fixup}
    (h : (fix.shift d).judge symbols' (r.image.origin + d) = fix.judge symbols r.image.origin) :
    Mirrors (shift d) (resolve symbols fix) (resolve symbols' (fix.shift d)) r := by
  refine .get_bind ?_
  have horigin : (r.shift d).image.origin = r.image.origin + d := rfl
  rw [horigin, h]
  rcases hjudge : fix.judge symbols r.image.origin with notice | value
  · exact mirrors_report notice fix.line
  · have horigin : r.image.origin ≤ fix.ofs := (Fixup.value_of_fill hjudge 0).1
    refine .bind (.ofExcept _) fun low t ht => ?_
    obtain ⟨-, rfl⟩ := Prod.mk.inj ht
    -- A value that is too wide is told first, which leaves the image alone.
    have hfill : ∀ u : Resolution, u.image = r.image → Mirrors (shift d)
        (onImage (fix.apply low) >>= fun _ => modify fun r => { r with resolved := r.resolved + 1 })
        (onImage ((fix.shift d).apply low) >>= fun _ =>
          modify fun r => { r with resolved := r.resolved + 1 }) u := by
      intro u hu
      refine .bind (.on (Fixup.mirrors_apply ?_ low) rfl fun _ => rfl) fun _ _ _ => .modify rfl
      rw [hu]
      exact horigin
    simp only
    show Mirrors _ _ (if Fixup.overflows fix.bitlen.toNat value then _ else _) r
    split
    · exact .bind (mirrors_report _ _) fun _ u hu => hfill u (image_of_report hu)
    · exact hfill r rfl

/-- Fixups that are judged alike are resolved alike in a shifted image. -/
theorem mirrors_resolveAll {fixups : List Fixup} (hsize : r.image.words.size ≤ Machine.words)
    (h : ∀ fix ∈ fixups,
      (fix.shift d).judge symbols' (r.image.origin + d) = fix.judge symbols r.image.origin) :
    Mirrors (shift d) (resolveAll symbols fixups)
      (resolveAll symbols' (fixups.map (Fixup.shift d))) r := by
  rw [resolveAll, resolveAll, Assembler.each_map]
  refine .each (fun t =>
    t.image.origin = r.image.origin ∧ t.image.words.size ≤ Machine.words) ⟨rfl, hsize⟩ ?_ ?_
  · intro fix hfix t ht
    refine mirrors_resolve ?_
    rw [ht.1]
    exact h fix hfix
  · intro fix hfix t u ht hresolve
    have hflipped := flipped_of_resolve ht.2 hresolve
    exact ⟨hflipped.origin_eq.trans ht.1, hflipped.size_le⟩

end Resolution

/-! ## Shifted records -/

namespace Record

variable {image : Image} {d : Int}

/-- A record shows the same words in a shifted image. -/
theorem render_shift {record : Record} (h : d = 0 ∨ image.origin ≤ record.offset) :
    (record.shift d).render (image.shift d) true =
      (record.render image true).map fun (rendered, report) => (rendered.shift d, report) := by
  rcases h with rfl | h
  · rw [shift_zero, Image.shift_zero]
    rcases record.render image true with fault | ⟨rendered, report⟩
    · rfl
    · simp [Except.map]
  · -- A record in front of the image would be told of, with both addresses.
    have hshifted : ¬ (record.shift d).offset < (image.shift d).origin := by
      show ¬ record.offset + d < image.origin + d
      omega
    rw [render, render, if_neg hshifted, if_neg (by omega)]
    show (wordCount record.nbits image.width >>= _) = _
    rcases wordCount record.nbits image.width with fault | count
    · rfl
    · have htext : (image.shift d).render (record.offset + d) count =
          image.render record.offset count := by
        rw [Image.render, Image.render, Image.index_shift h]
        rfl
      show ((image.shift d).render (record.offset + d) count >>= _) = _
      rw [htext]
      change _ = (image.render record.offset count >>= _).map _
      rcases image.render record.offset count with fault | text <;> rfl

/-- Records show the same words in a shifted image. -/
theorem renderAll_shift {records : List Record}
    (h : ∀ record ∈ records, d = 0 ∨ image.origin ≤ record.offset) :
    renderAll (image.shift d) true (records.map (shift d)) =
      ((renderAll image true records).1, (renderAll image true records).2.1.map (shift d),
        (renderAll image true records).2.2) := by
  induction records with
  | nil => rfl
  | cons record rest ih =>
    obtain ⟨hrecord, hrest⟩ := List.forall_mem_cons.1 h
    rw [List.map_cons, renderAll, render_shift hrecord, renderAll]
    rcases record.render image true with fault | ⟨rendered, report⟩
    · rfl
    · simp only [Except.map, ih hrest]
      rfl

end Record

/-! ## Finishing -/

namespace Assembler

variable {a : Assembler} {d : Int} {symbols : Symbols}

/-- A shifted assembler resolves fixups as the assembler does, if it judges them alike. -/
theorem mirrors_resolveFixups (hs : a.Sound) (hfixups : ∀ fix ∈ a.fixups.toList,
    (fix.shift d).judge (Bindings.find? symbols) (a.origin + d) =
      fix.judge (Bindings.find? a.symbols) a.origin) :
    Mirrors (shift d symbols) resolveFixups resolveFixups a := by
  have hall : Mirrors (Resolution.shift d)
      (Resolution.resolveAll (Bindings.find? a.symbols) a.fixups.toList)
      (Resolution.resolveAll (Bindings.find? symbols) (a.shift d symbols).fixups.toList)
      { image := a.image } := by
    have hlist : (a.shift d symbols).fixups.toList = a.fixups.toList.map (Fixup.shift d) :=
      Array.toList_map
    rw [hlist]
    refine Resolution.mirrors_resolveAll hs.room ?_
    rw [hs.image_origin]
    exact hfixups
  have hrun : (Resolution.resolveAll (Bindings.find? (a.shift d symbols).symbols)
      (a.shift d symbols).fixups.toList).runFrom { image := (a.shift d symbols).image } = _ := hall
  rw [Mirrors, runFrom_resolveFixups, runFrom_resolveFixups, hrun, ← warnAll_shift]
  rfl

/-- A shifted assembler shows its records as the assembler does. -/
theorem mirrors_renderRecords
    (hrecords : ∀ record ∈ a.records.toList, d = 0 ∨ a.image.origin ≤ record.offset) :
    Mirrors (shift d symbols) renderRecords renderRecords a := by
  have hlist : (a.shift d symbols).records.toList = a.records.toList.map (Record.shift d) :=
    Array.toList_map
  have hrun : Record.renderAll (a.shift d symbols).image true
      (a.records.toList.map (Record.shift d)) = _ := Record.renderAll_shift hrecords
  rw [Mirrors, runFrom_renderRecords, runFrom_renderRecords, hlist, hrun, ← warnAll_shift]
  simp only [shift, List.map_toArray]

/-- **Finishing is the same wherever the image is**, if fixups are judged alike and no record has
been left in front of the image. -/
theorem mirrors_finish (hs : a.Sound)
    (hfixups : ∀ fix ∈ a.fixups.toList,
      (fix.shift d).judge (Bindings.find? symbols) (a.origin + d) =
        fix.judge (Bindings.find? a.symbols) a.origin)
    (hrecords : ∀ record ∈ a.records.toList, d = 0 ∨ a.origin ≤ record.offset) :
    Mirrors (shift d symbols) finish finish a := by
  refine .bind (mirrors_resolveFixups hs hfixups) fun u b hb => ?_
  -- Resolving flips bits of words; it moves neither the image nor the records.
  have hkept : b.image.origin = a.origin ∧ b.records = a.records := by
    rw [runFrom, resolveFixups] at hb
    rcases hrun : (Resolution.resolveAll (Bindings.find? a.symbols) a.fixups.toList).runFrom
      { image := a.image } with ⟨result, reached⟩
    rw [hrun] at hb
    obtain ⟨rfl, rfl⟩ := Prod.mk.inj hb
    have hflipped := Resolution.flipped_of_resolveAll hs.room hrun
    rw [warnAll_eq]
    exact ⟨hflipped.origin_eq.trans hs.image_origin, rfl⟩
  refine .bind (mirrors_renderRecords ?_) fun u c hc => .get_bind ?_
  · rw [hkept.1, hkept.2]
    exact hrecords
  rcases hpad : c.image.pad c.codelen with fault | image
  · have hshifted : (c.shift d symbols).image.pad (c.shift d symbols).codelen = .error fault := by
      rw [shift, Image.pad_shift, hpad]
      rfl
    rw [hshifted]
    rfl
  · have hshifted : (c.shift d symbols).image.pad (c.shift d symbols).codelen =
        .ok (image.shift d) := by
      rw [shift, Image.pad_shift, hpad]
      rfl
    rw [hshifted]
    refine .of_run (runFrom_bind_ok (runFrom_ofExcept _ _) _) ?_
    rw [runFrom_bind_ok (runFrom_ofExcept _ _), runFrom_set]
    simp only [shift, Array.map_empty]

/-- Finishing sees of symbols only their values. -/
theorem finish_withSymbols (hs : a.Sound) {symbols : Symbols}
    (h : ∀ name, Bindings.find? symbols name = Bindings.find? a.symbols name) :
    finish.runFrom (a.withSymbols symbols) =
      ((finish.runFrom a).1, (finish.runFrom a).2.withSymbols symbols) := by
  have hmirrors : Mirrors (shift 0 symbols) finish finish a := by
    refine mirrors_finish hs (fun fix _ => ?_) fun record _ => .inl rfl
    rw [Fixup.shift_zero, Int.add_zero, show Bindings.find? symbols = Bindings.find? a.symbols from
      funext h]
  rw [Mirrors, shift_zero, shift_zero] at hmirrors
  exact hmirrors

/-- Finishing leaves the symbols alone. -/
theorem symbols_finish (hs : a.Sound) : (finish.runFrom a).2.symbols = a.symbols := by
  have hfinish : finish.runFrom a =
      ((finish.runFrom a).1, (finish.runFrom a).2.withSymbols a.symbols) :=
    finish_withSymbols hs fun _ => rfl
  rw [hfinish]
  rfl

end Assembler

end Retarget
