import Retarget.Proofs.Slips

/-!
# What holds of every assembler

An assembler is used through four calls: assemble a line, assemble lines, assemble a text, finish.
Each may fail part of the way, and the next one goes on from the state that was reached.  Whatever
the calls and their texts are, the assembler stays well formed (`Assembler.WellFormed`): its image
has its width and its origin, the next word is never in front of the image, and whatever waits for a
symbol lies within its instruction.

That is why no call fails for a slip of the assembler itself, such as a place in front of the image,
words of no bits or a negative shift (`wellFormed_afterCalls`).  Directives may move the origin and
change the width at any time, and fixups and records may be left in front of a raised origin, so
finishing depends on it long after the lines that queued them.
-/

namespace Retarget

variable [Machine]

/-! ## Events -/

/-- Whether an event can be met: a failure that it tells of is foreseen. -/
def Event.Proper (library : Option Library) : Event → Prop
  | .tell notice => ∀ fault, notice ≠ .failure fault
  | .halt notice => ∀ fault, notice = .failure fault → fault.Foreseen library
  | _ => True

namespace Assembler

section Proper

variable {library : Option Library} {nested : List String → Assembler → List Event}

/-- Stopping for another reason than a failure. -/
theorem proper_halt {notice : Notice} (h : ∀ fault, notice ≠ .failure fault) :
    ∀ e ∈ [Event.halt notice], e.Proper library :=
  List.forall_mem_singleton.2 fun fault hnotice => absurd hnotice (h fault)

/-- Stopping for a failure. -/
theorem proper_failure {fault : Fault} (h : fault.Foreseen library) :
    ∀ e ∈ [Event.halt (.failure fault)], e.Proper library := by
  refine List.forall_mem_singleton.2 ?_
  rintro _ ⟨⟩
  exact h

theorem proper_tell {notice : Notice} (h : ∀ fault, notice ≠ .failure fault) :
    ∀ e ∈ [Event.tell notice], e.Proper library :=
  List.forall_mem_singleton.2 h

/-- The events of an instruction are proper. -/
theorem proper_instructionEvents (a : Assembler) (text : String) :
    ∀ e ∈ instructionEvents a text, e.Proper library := by
  rw [instructionEvents]
  split
  · exact proper_halt (by rintro _ ⟨⟩)
  · rename_i set hset
    split
    · exact List.forall_mem_singleton.2 trivial
    · rename_i last hpick
      refine proper_tell fun fault => ?_
      cases last <;> rintro ⟨⟩
    · rename_i fault hpick
      have hclean := clean_pick set.arch text none fun rule => set.compile_of_mem
      exact proper_failure (.of_isClean (hclean _ hpick))

/-- Choosing an architecture is proper. -/
theorem proper_archEvents (name : String) : ∀ e ∈ archEvents library name, e.Proper library := by
  unfold archEvents
  split
  · exact proper_halt (by rintro _ ⟨⟩)
  · rename_i lib
    split
    · exact proper_halt (by rintro _ ⟨⟩)
    · exact proper_halt (by rintro _ ⟨⟩)
    · rename_i fault hload hrefused harch
      exact proper_failure fun _ => ⟨lib, rfl, .inl ⟨name, harch⟩⟩
    · split
      · exact List.forall_mem_singleton.2 trivial
      · exact proper_halt (by rintro _ ⟨⟩)
      · rename_i fault hfault hset
        exact proper_failure (.of_isClean (InstructionSet.clean_ofDocument _ _ fault hset))

/-- A directive with a number is proper, if it is for every number. -/
theorem proper_numberEvents (word token : String) {event : Int → Event}
    (h : ∀ n, (event n).Proper library) :
    ∀ e ∈ numberEvents word token event, e.Proper library := by
  rw [numberEvents]
  split
  · exact List.forall_mem_singleton.2 (h _)
  · exact proper_halt (by rintro _ ⟨⟩)

variable (hnested : ∀ lines a, ∀ e ∈ nested lines a, e.Proper library)

include hnested

/-- Including a source is proper, if the nested events are. -/
theorem proper_sourceEvents (kind : SourceKind) (name : String) (a : Assembler) :
    ∀ e ∈ sourceEvents library nested kind name a, e.Proper library := by
  unfold sourceEvents
  split
  · exact proper_halt (by rintro _ ⟨⟩)
  · rename_i lib
    split
    · exact proper_halt (by rintro _ ⟨⟩)
    · rename_i fault hfault hsource
      exact proper_failure fun _ => ⟨lib, rfl, .inr ⟨kind, name, hsource⟩⟩
    · exact hnested _ a

/-- The events of a directive are proper, if the nested events are. -/
theorem proper_directiveEvents (a : Assembler) (text : String) :
    ∀ e ∈ directiveEvents library nested a text, e.Proper library := by
  rw [directiveEvents]
  split
  · exact proper_tell (by rintro _ ⟨⟩)
  · exact List.forall_mem_singleton.2 trivial
  · exact List.forall_mem_singleton.2 trivial
  · exact List.forall_mem_singleton.2 trivial
  · exact proper_tell (by rintro _ ⟨⟩)
  · exact proper_tell (by rintro _ ⟨⟩)
  · exact proper_archEvents _
  · exact proper_sourceEvents hnested _ _ a
  · exact proper_numberEvents _ _ fun _ => trivial
  · exact proper_numberEvents _ _ fun _ => trivial
  · exact proper_numberEvents _ _ fun _ => trivial
  · exact proper_numberEvents _ _ fun _ => trivial

/-- Every event of a line can be met. -/
theorem proper_lineEvents (line : String) (a : Assembler) :
    ∀ e ∈ lineEvents library nested line a, e.Proper library := by
  rw [lineEvents]
  generalize Statement.parse line = statement
  intro e he
  rcases List.mem_append.1 he with he | he
  · rw [headEvents] at he
    rcases List.mem_cons.1 he with rfl | he
    · trivial
    · obtain ⟨name, -, rfl⟩ := List.mem_map.1 he
      trivial
  · rcases hbody : statement.body with _ | text | text
    · rw [hbody] at he
      cases he
    · rw [hbody, bodyEvents] at he
      exact proper_directiveEvents hnested _ text e he
    · rw [hbody, bodyEvents] at he
      exact proper_instructionEvents _ text e he

/-- The events of lines are proper, if the nested events are. -/
theorem proper_traceLines (lines : List String) (a : Assembler) :
    ∀ e ∈ traceLines (lineEvents library nested) lines a, e.Proper library := by
  induction lines generalizing a with
  | nil => exact List.forall_mem_nil _
  | cons line rest ih =>
    rw [traceLines]
    split
    · exact List.forall_mem_nil _
    · intro e he
      rcases List.mem_append.1 he with he | he
      · exact proper_lineEvents hnested line a e he
      · exact ih _ e he

end Proper

/-- The events of included lines are proper, however deep they are nested. -/
theorem proper_traceNested (library : Option Library) (depth : Nat) (lines : List String)
    (a : Assembler) : ∀ e ∈ traceNested library depth lines a, e.Proper library := by
  induction depth generalizing lines a with
  | zero => exact proper_failure (.of_isClean rfl)
  | succ depth ih => exact proper_traceLines ih lines a

end Assembler

/-! ## Well-formed assemblers -/

/-- Whether the field of a fixup has bits and lies within its instruction, if the instruction has a
length of its own. -/
structure Fixup.Inside (fix : Fixup) : Prop where
  bitlen : 1 ≤ fix.bitlen
  bitofs : 0 ≤ fix.bitofs
  within : fix.nbits = 0 ∨ fix.bitofs + fix.bitlen ≤ fix.nbits

instance (fix : Fixup) : Decidable fix.Inside :=
  decidable_of_iff (1 ≤ fix.bitlen ∧ 0 ≤ fix.bitofs ∧
      (fix.nbits = 0 ∨ fix.bitofs + fix.bitlen ≤ fix.nbits))
    ⟨fun h => ⟨h.1, h.2.1, h.2.2⟩, fun h => ⟨h.bitlen, h.bitofs, h.within⟩⟩

omit [Machine] in
/-- A field that lies inside its instruction ends within its length. -/
theorem Fixup.Inside.le_length {fix : Fixup} (h : fix.Inside) :
    fix.bitofs + fix.bitlen ≤ fix.length := by
  have hwithin := h.within
  unfold Fixup.length
  split
  · exact Int.le_refl _
  · omega

/-- Whether the field of a fixup has bits, lies within its instruction, and comes from a line. -/
structure Fixup.WellFormed (fix : Fixup) : Prop where
  bitlen : 1 ≤ fix.bitlen
  bitofs : 0 ≤ fix.bitofs
  within : fix.bitofs + fix.bitlen ≤ fix.nbits
  line : 1 ≤ fix.line

omit [Machine] in
/-- The field of a well-formed fixup is inside of its instruction. -/
theorem Fixup.WellFormed.inside {fix : Fixup} (h : fix.WellFormed) : fix.Inside :=
  ⟨h.bitlen, h.bitofs, .inr h.within⟩

namespace Assembler

/-- Whether an assembler is sound, all that it has queued is well formed, and every failure that it
tells of was foreseen. -/
structure WellFormed (library : Option Library) (a : Assembler) : Prop extends Sound a where
  fixups : ∀ fix ∈ a.fixups.toList, fix.WellFormed
  records : ∀ record ∈ a.records.toList, 0 ≤ record.nbits
  failures : ∀ d ∈ a.diagnostics.toList, ∀ fault, d.notice = .failure fault →
    fault.Foreseen library

end Assembler

/-- A field that waits for a symbol has bits. -/
theorem Encoding.bits_pos (e : Encoding) {f : Field} (hf : f ∈ e.fields) (hp : f.pending ≠ none) :
    0 < f.bits := by
  obtain ⟨entry, -, hentry⟩ := exists_of_mem_mapM e.built hf
  exact Field.bits_pos_of_ofEntry hentry hp

omit [Machine] in
/-- The fixups of fields lie within the bits of the fields. -/
theorem Instruction.within_fixupsOf {address line : Int} {nbits bitofs : Nat} {fields : List Field}
    (hpos : ∀ f ∈ fields, f.pending ≠ none → 0 < f.bits) :
    ∀ fix ∈ fixupsOf address line nbits bitofs fields,
      bitofs ≤ fix.bitofs ∧ 1 ≤ fix.bitlen ∧ fix.bitofs + fix.bitlen ≤ bitofs + lengthOf fields ∧
        fix.line = line := by
  induction fields generalizing bitofs with
  | nil => exact List.forall_mem_nil _
  | cons f rest ih =>
    rw [lengthOf_cons]
    intro fix hfix
    rw [fixupsOf] at hfix
    rcases List.mem_append.1 hfix with hfix | hfix
    · rcases hp : f.pending with _ | p
      · rw [hp] at hfix
        cases hfix
      · rw [hp] at hfix
        have hbits := hpos f List.mem_cons_self (by rw [hp]; exact Option.some_ne_none p)
        cases List.mem_singleton.1 hfix
        refine ⟨Int.le_refl _, ?_, ?_, rfl⟩
        · show (1 : Int) ≤ f.bits
          omega
        · show (bitofs : Int) + f.bits ≤ bitofs + (f.bits + lengthOf rest : Nat)
          omega
    · have hwithin := ih (fun g hg => hpos g (List.mem_cons_of_mem f hg)) fix hfix
      omega

omit [Machine] in
/-- The fixups of fields lie within the instruction that the fields make. -/
theorem Instruction.wellFormed_fixupsOf {address line : Int} {nbits bitofs : Nat}
    {fields : List Field} (hpos : ∀ f ∈ fields, f.pending ≠ none → 0 < f.bits) (hline : 1 ≤ line)
    (hlength : bitofs + lengthOf fields ≤ nbits) :
    ∀ fix ∈ fixupsOf address line nbits bitofs fields, fix.WellFormed := by
  intro fix hfix
  obtain ⟨hbitofs, hbitlen, hend, hfixline⟩ := within_fixupsOf hpos fix hfix
  obtain ⟨-, hnbits, -⟩ := mem_fixupsOf hfix
  exact ⟨hbitlen, by omega, by omega, by omega⟩

/-- The fixups of an emission are well formed. -/
theorem Placed.wellFormed_fixups {p : Placed} (hwidth : 1 ≤ p.width) (hline : 0 < p.line) :
    ∀ fix ∈ p.fixups, fix.WellFormed := by
  have hline' : (1 : Int) ≤ p.line := by omega
  rw [fixups]
  split
  · rename_i e he
    refine Instruction.wellFormed_fixupsOf (fun f => e.bits_pos) hline' ?_
    rw [Nat.zero_add, e.lengthOf_fields]
  · intro fix hfix
    obtain ⟨⟨place, token⟩, -, htoken⟩ := List.mem_filterMap.1 hfix
    simp only at htoken
    split at htoken
    · cases htoken
    · cases htoken
      refine ⟨hwidth, Int.le_refl 0, ?_, hline'⟩
      show 0 + p.width ≤ p.width
      omega
  · exact List.forall_mem_nil _

theorem Placed.nbits_nonneg {p : Placed} (hwidth : 1 ≤ p.width) : 0 ≤ p.nbits := by
  have hmul : ∀ n : Nat, 0 ≤ p.width * (n : Int) := by
    intro n
    exact Int.mul_nonneg (by omega) (Int.natCast_nonneg n)
  rw [nbits]
  split
  · exact Int.natCast_nonneg _
  · exact hmul _
  · exact hmul _

namespace Assembler

section WellFormed

variable {library : Option Library} {a b : Assembler}

/-- A fresh assembler is well-formed. -/
theorem wellFormed_fresh (active : Option InstructionSet) : (fresh active).WellFormed library := by
  have hsound := (follows_fresh active).sound
  cases active with
  | none => exact ⟨hsound, List.forall_mem_nil _, List.forall_mem_nil _, List.forall_mem_nil _⟩
  | some set => exact ⟨hsound, List.forall_mem_nil _, List.forall_mem_nil _, List.forall_mem_nil _⟩

/-- What queues nothing and tells of no failure keeps an assembler well formed. -/
theorem WellFormed.of_frame (h : a.WellFormed library) (hsound : b.Sound)
    (hfixups : b.fixups = a.fixups) (hrecords : b.records = a.records)
    (hdiagnostics : ∀ d ∈ b.diagnostics.toList, d ∈ a.diagnostics.toList ∨
      ∀ fault, d.notice = .failure fault → fault.Foreseen library) : b.WellFormed library := by
  refine ⟨hsound, ?_, ?_, fun d hd => ?_⟩
  · rw [hfixups]
    exact h.fixups
  · rw [hrecords]
    exact h.records
  · rcases hdiagnostics d hd with hd | hd
    · exact h.failures d hd
    · exact hd

/-- Stopping for what can be foreseen keeps an assembler well-formed. -/
theorem WellFormed.stop (h : a.WellFormed library) {notice : Notice}
    (hnotice : ∀ fault, notice = .failure fault → fault.Foreseen library) (line : Option Int) :
    (a.stop notice line).WellFormed library := by
  refine h.of_frame (h.toSound.congr rfl rfl rfl rfl) rfl rfl
    fun d hd => ?_
  rcases mem_diagnostics_stop hd with hd | hd
  · exact .inl hd
  · exact .inr (hd ▸ hnotice)

/-- An emission keeps an assembler well-formed. -/
theorem WellFormed.emit (h : a.WellFormed library) (hline : 0 < a.line) (emission : Emission) :
    (a.apply (.emit emission)).WellFormed library := by
  have hemitted := emitted h.toSound emission
  have hsound := h.toSound.apply (.emit emission)
  generalize hb : a.apply (.emit emission) = b at hemitted hsound
  have hfixups : b.fixups = a.fixups ++ (a.place emission).fixups.toArray := by
    rw [hemitted.frame]
  have hrecords : b.records = a.records.push (a.place emission).record := by
    rw [hemitted.frame]
  refine ⟨hsound, ?_, ?_, fun d hd fault hfault => ?_⟩
  · intro fix hfix
    rw [hfixups, Array.toList_append] at hfix
    rcases List.mem_append.1 hfix with hfix | hfix
    · exact h.fixups fix hfix
    · exact Placed.wellFormed_fixups h.width_pos hline fix hfix
  · intro record hrecord
    rw [hrecords, Array.toList_push] at hrecord
    rcases List.mem_append.1 hrecord with hrecord | hrecord
    · exact h.records record hrecord
    · rw [List.mem_singleton.1 hrecord]
      exact Placed.nbits_nonneg h.width_pos
  · rcases hemitted.told d hd with hd | hd | ⟨why, hwhy⟩
    · exact h.failures d hd fault hfault
    · rw [hfault] at hd
      cases hd
    · rw [hfault] at hwhy
      cases hwhy
      exact .of_isClean rfl

/-- **An event keeps an assembler well formed**, once a line has been counted. -/
theorem WellFormed.apply (h : a.WellFormed library) (hline : 0 < a.line) {e : Event}
    (he : e.Proper library) : (a.apply e).WellFormed library := by
  have hsound := h.toSound.apply e
  cases e with
  | tell notice =>
    refine h.of_frame hsound rfl rfl fun d hd => ?_
    rw [Assembler.apply, warn, Array.toList_push, List.mem_append, List.mem_singleton] at hd
    rcases hd with hd | rfl
    · exact .inl hd
    · exact .inr fun fault hfault => absurd hfault (he fault)
  | halt notice => exact h.stop he none
  | width n =>
    rw [Assembler.apply, setWidth] at hsound ⊢
    split
    · exact h.stop (by rintro _ ⟨⟩) none
    · rename_i hn
      rw [if_neg hn] at hsound
      exact h.of_frame hsound rfl rfl fun _ => .inl
  | align n =>
    rw [Assembler.apply, Assembler.align] at hsound ⊢
    split
    · exact h.stop (by rintro _ ⟨⟩) none
    · rename_i hn
      rw [if_neg hn] at hsound
      exact h.of_frame hsound rfl rfl fun _ => .inl
  | emit emission => exact h.emit hline emission
  | _ => exact h.of_frame hsound rfl rfl fun _ => .inl

/-- Lines are never uncounted. -/
theorem le_line_apply (hs : a.Sound) (e : Event) : a.line ≤ (a.apply e).line := by
  cases e with
  | count => exact Nat.le_succ _
  | width n =>
    rw [apply, setWidth]
    split <;> exact Nat.le_refl _
  | align n =>
    rw [apply, align]
    split <;> exact Nat.le_refl _
  | emit emission =>
    rw [(emitted hs emission).frame]
  | _ => exact Nat.le_refl _

/-- Proper events keep an assembler well-formed. -/
theorem WellFormed.replay (h : a.WellFormed library) (hline : 0 < a.line) {events : List Event}
    (hproper : ∀ e ∈ events, e.Proper library) : (replay events a).WellFormed library := by
  induction events generalizing a with
  | nil => exact h
  | cons e rest ih =>
    refine ih (h.apply hline (hproper e List.mem_cons_self)) ?_ fun f hf =>
      hproper f (List.mem_cons_of_mem e hf)
    exact Nat.lt_of_lt_of_le hline (le_line_apply h.toSound e)

/-- The events of a line keep an assembler well formed: the first of them counts the line. -/
theorem WellFormed.lineEvents (h : a.WellFormed library)
    {nested : List String → Assembler → List Event}
    (hnested : ∀ lines a, ∀ e ∈ nested lines a, e.Proper library) (line : String) :
    (Assembler.replay (lineEvents library nested line a) a).WellFormed library := by
  have hproper := proper_lineEvents hnested line a
  obtain ⟨rest, hrest⟩ : ∃ rest, Assembler.lineEvents library nested line a = .count :: rest :=
    ⟨_, rfl⟩
  rw [hrest] at hproper ⊢
  have hcount : (a.apply .count).WellFormed library :=
    h.of_frame (h.toSound.apply .count) rfl rfl fun _ => .inl
  exact hcount.replay (Nat.succ_pos a.line) fun e he => hproper e (List.mem_cons_of_mem _ he)

/-- What a guarded attempt tells of its failure is the fault of the attempt. -/
theorem WellFormed.of_guarded {α : Type} {x : Attempt Assembler α}
    (h : (guarded x a).WellFormed library) :
    (x.runFrom a).2.WellFormed library ∧
      ∀ fault, (x.runFrom a).1 = .error fault → fault.Foreseen library := by
  rcases hx : x.runFrom a with ⟨fault | v, c⟩
  · -- The last diagnostic is the one that was added for the fault; the others were there before.
    rw [guarded_of_error hx] at h
    have hpush : (c.stop (.failure fault) none).diagnostics.toList =
        c.diagnostics.toList ++ [⟨.failure fault, c.lineOr none, true⟩] := Array.toList_push
    have hfailures := h.failures
    rw [hpush] at hfailures
    refine ⟨⟨h.toSound.congr rfl rfl rfl rfl, h.fixups, h.records,
      fun d hd => hfailures d (List.mem_append_left _ hd)⟩, ?_⟩
    rintro _ ⟨⟩
    exact hfailures _ (List.mem_append_right _ List.mem_cons_self) fault rfl
  · rw [guarded_of_ok hx] at h
    refine ⟨h, ?_⟩
    rintro _ ⟨⟩

/-- Assembling a line keeps an assembler well formed, even where it fails. -/
theorem WellFormed.step (h : a.WellFormed library) (line : String) :
    ((Assembler.step library line).runFrom a).2.WellFormed library ∧
      ∀ fault, ((Assembler.step library line).runFrom a).1 = .error fault →
        fault.Foreseen library := by
  refine of_guarded ?_
  rw [Assembler.step, guarded_assembleLine (guarded_assembleNested library Machine.nesting)]
  exact h.lineEvents (proper_traceNested library Machine.nesting) line

/-- Assembling lines keeps an assembler well formed. -/
theorem WellFormed.assembleLines (h : a.WellFormed library) (lines : List String) :
    (Assembler.assembleLines library lines a).WellFormed library := by
  rw [assembleLines_eq_replay, trace]
  induction lines generalizing a with
  | nil => exact h
  | cons line rest ih =>
    rw [traceLines]
    split
    · exact h
    · rw [replay_append]
      exact ih (h.lineEvents (proper_traceNested library Machine.nesting) line)

end WellFormed

end Assembler

/-! ## Finishing -/

/-- Whether an image has kept its width and its origin, and is not larger than there is room. -/
structure Image.Kept (image after : Image) : Prop where
  width : after.width = image.width
  origin : after.origin = image.origin
  room : after.words.size ≤ Machine.words

namespace Image

variable {start image : Image} {address : Int}

/-- Behind the origin, changing a word fails for no slip if the change does not. -/
theorem safe_modifyAt (h : start.Kept image) (horigin : start.origin ≤ address)
    (change : Nat → Except Fault Nat)
    (hchange : ∀ old, FailsFor Fault.isClean (change old)) :
    (modifyAt address change).Safe image start.Kept := by
  have horigin' : image.origin ≤ address := h.origin ▸ horigin
  have hroom := h.room
  by_cases hreach : image.Reaches address
  · have hplace : image.place address < Machine.words := by
      have := hreach.2
      omega
    have hrun := modifyAt_of_reaches hreach change
    rcases hc : change (Words.get image.words (image.place address)) with fault | word
    · rw [hc] at hrun
      refine .of_error hrun ⟨h.width, h.origin, ?_⟩ (hchange _ _ hc)
      show (Words.grow _ _).size ≤ _
      rw [Words.size_grow]
      omega
    · rw [hc] at hrun
      refine .of_ok hrun ⟨h.width, h.origin, ?_⟩
      show (Words.deposit _ _ _).size ≤ _
      rw [Words.size_deposit]
      omega
  · obtain ⟨why, hrun⟩ := modifyAt_of_no_room horigin' hreach change
    exact .of_error hrun h rfl

/-- Flipping bits behind the origin is safe. -/
theorem safe_flip (h : start.Kept image) (hwidth : 1 ≤ start.width)
    (horigin : start.origin ≤ address) (value : Int) :
    (flip address value).Safe image start.Kept := by
  have hwidth' : 0 ≤ image.width := by
    rw [h.width]
    omega
  have hchange : ∀ old : Nat, FailsFor Fault.isClean (do
      let kept ← lowBits image.width old
      let flipped ← lowBits image.width value
      .ok (kept ^^^ flipped)) := fun old =>
    .bind (clean_lowBits hwidth' old) fun _ _ =>
      .bind (clean_lowBits hwidth' value) fun _ _ => .ok _
  have hsafe := safe_modifyAt h horigin _ hchange
  exact ⟨hsafe.state, hsafe.fault⟩

end Image

namespace Fixup

variable {fix : Fixup} {start image : Image}

/-- The words that a field changes are found without a slip, as the field lies within its
instruction. -/
theorem clean_patches (hfix : fix.WellFormed) {width : Int} (hwidth : 1 ≤ width) (value : Int) :
    FailsFor Fault.isClean (fix.patches width value) := by
  have hlength : fix.length = fix.nbits := by
    have h1 := hfix.bitlen
    have h2 := hfix.bitofs
    have h3 := hfix.within
    rw [length, if_neg (by omega)]
  have hshift : 0 ≤ fix.length - fix.bitofs - fix.bitlen := by
    have := hfix.within
    omega
  rw [patches, wordCount, if_neg (by omega)]
  refine .bind (.ok _) fun needed _ => ?_
  refine .bind (Capacity.clean_shiftUp value hshift) fun placed _ => ?_
  refine .bind (Capacity.clean_fieldBits (by omega)) fun bits _ => ?_
  split
  · exact .ok _
  · exact .ok _

/-- Applying a well-formed fixup behind the origin is safe. -/
theorem safe_apply (hfix : fix.WellFormed) (h : start.Kept image) (hwidth : 1 ≤ start.width)
    (horigin : start.origin ≤ fix.ofs) (value : Int) :
    (fix.apply value).Safe image start.Kept := by
  have hwidth' : 1 ≤ image.width := h.width ▸ hwidth
  rcases hpatches : fix.patches image.width value with fault | patches
  · have hrun : (fix.apply value).runFrom image = (.error fault, image) := by
      rw [Attempt.runFrom, Fixup.apply, hpatches]
    exact .of_error hrun h (clean_patches hfix hwidth' value fault hpatches)
  · have hrun : (fix.apply value).runFrom image = (Attempt.each
        (fun p : Nat × Nat => Image.flip (fix.ofs + p.1) p.2) patches).runFrom image := by
      rw [Attempt.runFrom, Fixup.apply, hpatches]
      rfl
    -- The words of an instruction follow its address, so none of them is in front of the image.
    have hsafe : (Attempt.each
        (fun p : Nat × Nat => Image.flip (fix.ofs + p.1) p.2) patches).Safe image start.Kept :=
      .each h fun p _ t ht => Image.safe_flip ht hwidth (by omega) p.2
    refine ⟨?_, ?_⟩ <;> rw [hrun]
    · exact hsafe.state
    · exact hsafe.fault

omit [Machine] in
/-- What is told of a fixup that is skipped is no failure. -/
theorem notice_of_skip {symbols : String → Option SymbolValue} {origin : Int} {notice : Notice}
    (h : fix.judge symbols origin = .skip notice) (fault : Fault) : notice ≠ .failure fault := by
  rw [judge] at h
  split at h
  · cases h
    rintro ⟨⟩
  · split at h
    · cases h
      rintro ⟨⟩
    · split at h
      · cases h
        rintro ⟨⟩
      · cases h

end Fixup

namespace Resolution

/-- Whether resolving has kept an image, and has told of no failure. -/
structure Kept (start : Image) (r : Resolution) : Prop where
  image : start.Kept r.image
  reports : ∀ report ∈ r.reports, ∀ fault, report.notice ≠ .failure fault

variable {start : Image} {r : Resolution}

/-- Telling something is safe. -/
theorem safe_report (h : r.Kept start) (notice : Notice)
    (hnotice : ∀ fault, notice ≠ .failure fault) (line : Int) :
    (report notice line).Safe r (Kept start) := by
  refine .bind (.ofExcept notice.clean_shown h) fun shown t ht => ?_
  obtain ⟨hshown, rfl⟩ := Prod.mk.inj ht
  obtain rfl := Notice.shown_eq_ok hshown
  refine .of_ok (Attempt.runFrom_modify _ _) ⟨h.image, fun report hreport => ?_⟩
  rcases List.mem_append.1 hreport with hreport | hreport
  · exact h.reports report hreport
  · rw [List.mem_singleton.1 hreport]
    exact hnotice

theorem safe_onImage (h : r.Kept start) {attempt : Attempt Image Unit}
    (hattempt : attempt.Safe r.image start.Kept) : (onImage attempt).Safe r (Kept start) :=
  ⟨⟨hattempt.state, h.reports⟩, hattempt.fault⟩

/-- **Resolving a well-formed fixup fails for no slip.** -/
theorem safe_resolve (symbols : String → Option SymbolValue) {fix : Fixup} (hfix : fix.WellFormed)
    (h : r.Kept start) (hwidth : 1 ≤ start.width) : (resolve symbols fix).Safe r (Kept start) := by
  refine Attempt.Safe.get_bind ?_
  rcases hjudge : fix.judge symbols r.image.origin with notice | value
  · exact safe_report h notice (Fixup.notice_of_skip hjudge) fix.line
  · obtain ⟨horigin, -⟩ := Fixup.value_of_fill hjudge fix.bitlen.toNat
    rw [h.image.origin] at horigin
    have hbitlen := hfix.bitlen
    -- The value is put in after it was told to be too wide, or at once.
    have hput : ∀ low : Nat, ∀ t : Resolution, t.Kept start →
        (onImage (fix.apply low) >>= fun _ => modify fun (r : Resolution) =>
          { r with resolved := r.resolved + 1 }).Safe t (Kept start) := by
      intro low t ht
      have happly := safe_onImage ht (Fixup.safe_apply hfix ht.image hwidth horigin low)
      refine happly.bind fun u t' ht' => ?_
      have hkept := happly.state
      rw [ht'] at hkept
      exact .of_ok (Attempt.runFrom_modify _ _) ⟨hkept.image, hkept.reports⟩
    refine Attempt.Safe.bind (.ofExcept (clean_lowBits (by omega) value) h) ?_
    rintro low t ht
    obtain rfl : r = t := congrArg Prod.snd ht
    simp only
    split
    · have hreport := safe_report h (.symbolTooWide fix.sym value fix.bitlen)
        (by rintro _ ⟨⟩) fix.line
      refine hreport.bind fun u t ht => hput low t ?_
      have hkept := hreport.state
      rwa [ht] at hkept
    · exact hput low r h

/-- Resolving well-formed fixups is safe. -/
theorem safe_resolveAll (symbols : String → Option SymbolValue) {fixups : List Fixup}
    (hfixups : ∀ fix ∈ fixups, fix.WellFormed) (h : r.Kept start) (hwidth : 1 ≤ start.width) :
    (resolveAll symbols fixups).Safe r (Kept start) :=
  Attempt.Safe.each h fun fix hfix _ ht => safe_resolve symbols (hfixups fix hfix) ht hwidth

end Resolution

/-- Words behind the origin can be shown, or are too long for it. -/
theorem Image.clean_render {image : Image} {address : Int} (horigin : image.origin ≤ address)
    (count : Int) : FailsFor Fault.isClean (image.render address count) := by
  rw [render_eq_bind horigin]
  exact .bind (Hex.clean_wordFields _ _) fun _ _ => Capacity.clean_holdText _

namespace Record

variable {image : Image}

/-- A record can be shown, or is too long for it. -/
theorem clean_render (hwidth : 1 ≤ image.width) (record : Record) :
    FailsFor Fault.isClean (record.render image true) := by
  rw [render]
  split
  · rw [if_pos rfl]
    exact .bind (Notice.clean_shown _) fun _ _ => .ok _
  · rename_i hbelow
    rw [wordCount, if_neg (by omega)]
    refine .bind (.ok _) fun count _ => ?_
    exact .bind (Image.clean_render (Int.not_lt.1 hbelow) count) fun _ _ => .ok _

/-- Rendering a record changes its text only, and what is told of it is no failure. -/
theorem kept_render {record rendered : Record} {report : Option Report}
    (h : record.render image true = .ok (rendered, report)) :
    rendered.nbits = record.nbits ∧ ∀ r ∈ report, ∀ fault, r.notice ≠ .failure fault := by
  rw [render] at h
  split at h
  · rw [if_pos rfl] at h
    rcases hshown : (Notice.belowOrigin record.offset image.origin).shown with other | notice
    · rw [hshown] at h
      cases h
    · rw [hshown] at h
      cases h
      refine ⟨rfl, ?_⟩
      rintro _ ⟨⟩ fault
      rw [Notice.shown_eq_ok hshown]
      rintro ⟨⟩
  · rcases hcount : wordCount record.nbits image.width with other | n
    · rw [hcount] at h
      cases h
    · rw [hcount] at h
      change (image.render record.offset n >>= fun text =>
        Except.ok (({ record with text } : Record), (none : Option Report))) = _ at h
      rcases htext : image.render record.offset n with other | text
      · rw [htext] at h
        cases h
      · rw [htext] at h
        cases h
        exact ⟨rfl, by rintro _ ⟨⟩⟩

/-- What rendering records leaves alone, even where it fails. -/
structure Rendering (records : List Record) (out : Except Fault Unit × List Record × List Report) :
    Prop where
  fault : FailsFor Fault.isClean out.1
  nbits : out.2.1.map Record.nbits = records.map Record.nbits
  reports : ∀ report ∈ out.2.2, ∀ fault, report.notice ≠ .failure fault

theorem rendering_renderAll (hwidth : 1 ≤ image.width) (records : List Record) :
    Rendering records (renderAll image true records) := by
  induction records with
  | nil => exact ⟨.ok _, rfl, List.forall_mem_nil _⟩
  | cons record rest ih =>
    rw [renderAll]
    rcases hrender : record.render image true with fault | ⟨rendered, report⟩
    · exact ⟨.error (clean_render hwidth record fault hrender), rfl, List.forall_mem_nil _⟩
    · obtain ⟨hnbits, hreport⟩ := kept_render hrender
      refine ⟨ih.fault, ?_, fun r hr => ?_⟩
      · exact congrArg₂ List.cons hnbits ih.nbits
      · rcases List.mem_append.1 hr with hr | hr
        · exact hreport r (Option.mem_toList.1 hr)
        · exact ih.reports r hr

end Record

namespace Assembler

variable {library : Option Library} {a : Assembler}

omit [Machine] in
/-- Telling reports that are no failures. -/
theorem mem_diagnostics_warnAll {reports : List Report} {d : Diagnostic}
    (hreports : ∀ report ∈ reports, ∀ fault, report.notice ≠ .failure fault)
    (h : d ∈ (a.warnAll reports).diagnostics.toList) :
    d ∈ a.diagnostics.toList ∨ ∀ fault, d.notice = .failure fault → fault.Foreseen library := by
  rw [warnAll_eq] at h
  simp only [Array.toList_append] at h
  rcases List.mem_append.1 h with h | h
  · exact .inl h
  · obtain ⟨report, hreport, rfl⟩ := List.mem_map.1 h
    exact .inr fun fault hfault => absurd hfault (hreports report hreport fault)

/-- Resolving the fixups of a well-formed assembler is safe. -/
theorem WellFormed.safe_resolveFixups (h : a.WellFormed library) :
    resolveFixups.Safe a (WellFormed library) := by
  have hwidth : 1 ≤ a.image.width := h.image_width ▸ h.width_pos
  have hstart : Resolution.Kept a.image { image := a.image } :=
    ⟨⟨rfl, rfl, h.room⟩, List.forall_mem_nil _⟩
  have hsafe := Resolution.safe_resolveAll (Bindings.find? a.symbols) h.fixups hstart hwidth
  rcases hrun : (Resolution.resolveAll (Bindings.find? a.symbols) a.fixups.toList).runFrom
    { image := a.image } with ⟨result, reached⟩
  have hresolve : resolveFixups.runFrom a =
      (result, { a with image := reached.image }.warnAll reached.reports) := by
    rw [Attempt.runFrom, resolveFixups, hrun]
  have hkept : reached.Kept a.image := by
    simpa only [hrun] using hsafe.state
  have hfault : FailsFor Fault.isClean result := by
    simpa only [hrun] using hsafe.fault
  refine ⟨?_, ?_⟩ <;> rw [hresolve]
  · refine h.of_frame ?_ ?_ ?_ fun d hd =>
      mem_diagnostics_warnAll (a := { a with image := reached.image }) hkept.reports hd
    · rw [warnAll_eq]
      exact ⟨hkept.image.width.trans h.image_width, hkept.image.origin.trans h.image_origin,
        h.width_pos, h.origin_le, hkept.image.room⟩
    · rw [warnAll_eq]
    · rw [warnAll_eq]
  · exact hfault

/-- Showing the records of a well-formed assembler is safe. -/
theorem WellFormed.safe_renderRecords (h : a.WellFormed library) :
    renderRecords.Safe a (WellFormed library) := by
  have hwidth : 1 ≤ a.image.width := h.image_width ▸ h.width_pos
  have hall := Record.rendering_renderAll hwidth a.records.toList
  rcases hrun : Record.renderAll a.image true a.records.toList with ⟨result, records, reports⟩
  rw [hrun] at hall
  have hrender : renderRecords.runFrom a =
      (result, { a with records := records.toArray }.warnAll reports) := by
    rw [Attempt.runFrom, renderRecords, hrun]
  refine ⟨?_, ?_⟩ <;> rw [hrender]
  · refine ⟨?_, ?_, ?_, fun d hd => ?_⟩
    · rw [warnAll_eq]
      exact h.toSound.congr rfl rfl rfl rfl
    · rw [warnAll_eq]
      exact h.fixups
    · rw [warnAll_eq]
      intro record hrecord
      have hmem : record.nbits ∈ a.records.toList.map Record.nbits := by
        rw [← hall.nbits]
        exact List.mem_map_of_mem hrecord
      obtain ⟨before, hbefore, hnbits⟩ := List.mem_map.1 hmem
      exact hnbits ▸ h.records before hbefore
    · rcases mem_diagnostics_warnAll hall.reports hd with hd | hd
      · exact h.failures d hd
      · exact hd
  · exact hall.fault

/-- **Finishing fails for no slip**, and keeps an assembler well formed even where it fails. -/
theorem WellFormed.safe_finish (h : a.WellFormed library) : finish.Safe a (WellFormed library) := by
  have hresolve := h.safe_resolveFixups
  -- Each part meets what the last one reached, and may leave it at that if it fails.
  refine hresolve.bind fun u b hb => ?_
  have hfilled : b.WellFormed library := by
    simpa only [hb] using hresolve.state
  have hrender := hfilled.safe_renderRecords
  refine hrender.bind fun u c hc => ?_
  have hkept : c.WellFormed library := by
    simpa only [hc] using hrender.state
  refine .get_bind (.bind (.ofExcept (.of_excess (fun _ => rfl) Image.pad_eq_error) hkept)
    fun image d hd => ?_)
  obtain ⟨hpad, rfl⟩ := Prod.mk.inj hd
  obtain ⟨hsize, rfl⟩ := Image.pad_eq_ok.1 hpad
  refine .of_ok (Attempt.runFrom_set _ _) ⟨⟨hkept.image_width, hkept.image_origin,
    hkept.width_pos, hkept.origin_le, ?_⟩, List.forall_mem_nil _, hkept.records, hkept.failures⟩
  have hroom := hkept.room
  show (Words.grow _ _).size ≤ _
  rw [Words.size_grow]
  omega

/-! ## Calls -/

/-- A call that is made of an assembler. -/
inductive Call where
  | line (text : String)
  | lines (texts : List String)
  | assemble (text : String)
  | finish

/-- What a call does. -/
def Call.attempt (library : Option Library) : Call → Attempt Assembler Unit
  | .line text => do let _ ← Assembler.step library text
  | .lines texts => modify (assembleLines library texts)
  | .assemble text => Assembler.assemble library text
  | .finish => Assembler.finish

/-- The state after calls, whether they failed or not. -/
def afterCalls (library : Option Library) (calls : List Call) (a : Assembler) : Assembler :=
  calls.foldl (fun a call => ((call.attempt library).runFrom a).2) a

/-- A call keeps an assembler well-formed and fails only for what can be foreseen. -/
theorem WellFormed.call (h : a.WellFormed library) (call : Call) :
    ((call.attempt library).runFrom a).2.WellFormed library ∧
      ∀ fault, ((call.attempt library).runFrom a).1 = .error fault → fault.Foreseen library := by
  have hfinish : ∀ b : Assembler, b.WellFormed library →
      (Assembler.finish.runFrom b).2.WellFormed library ∧
        ∀ fault, (Assembler.finish.runFrom b).1 = .error fault → fault.Foreseen library := by
    intro b hb
    exact ⟨hb.safe_finish.state, fun fault hfault => .of_isClean (hb.safe_finish.fault _ hfault)⟩
  cases call with
  | line text =>
    have hstep := h.step text
    rcases hrun : (Assembler.step library text).runFrom a with ⟨fault | record, b⟩
    · rw [hrun] at hstep
      rw [Call.attempt, Attempt.runFrom_bind_error hrun]
      refine ⟨hstep.1, ?_⟩
      rintro _ ⟨⟩
      exact hstep.2 fault rfl
    · rw [hrun] at hstep
      rw [Call.attempt, Attempt.runFrom_bind_ok hrun]
      refine ⟨hstep.1, ?_⟩
      rintro _ ⟨⟩
  | lines texts =>
    refine ⟨h.assembleLines texts, ?_⟩
    rintro _ ⟨⟩
  | assemble text =>
    rw [Call.attempt, Assembler.assemble, Attempt.runFrom_bind_ok (Attempt.runFrom_modify _ _)]
    exact hfinish _ (h.assembleLines _)
  | finish => exact hfinish a h

/-- Calls keep an assembler well-formed. -/
theorem WellFormed.afterCalls (h : a.WellFormed library) (calls : List Call) :
    (Assembler.afterCalls library calls a).WellFormed library := by
  induction calls generalizing a with
  | nil => exact h
  | cons call rest ih => exact ih (h.call call).1

/-- **Every assembler is well formed, and no call fails for a slip of it.**  Whatever calls are made
of an assembler that has read nothing, its state is well formed after them, and a call after them
fails for faults that are no slips or that the library throws. -/
theorem wellFormed_afterCalls (library : Option Library) (active : Option InstructionSet)
    (calls : List Call) :
    (afterCalls library calls (fresh active)).WellFormed library ∧
      ∀ call fault,
        ((Call.attempt library call).runFrom (afterCalls library calls (fresh active))).1 =
          .error fault → fault.Foreseen library := by
  have hreached : (afterCalls library calls (fresh active)).WellFormed library :=
    (wellFormed_fresh active).afterCalls calls
  exact ⟨hreached, fun call => (hreached.call call).2⟩

end Assembler

end Retarget
