import Retarget.Proofs.Definitions
import Retarget.Proofs.Reachable
import Retarget.Proofs.TwoPass

/-!
# Finishing early

A program may be finished in the middle and then gone on with: the fixups that wait are resolved and
forgotten, the records so far get their words, and the image is filled up to the declared length.
If the layout is settled before the first word, no later line declares a length and none binds a
symbol that an early fixup has looked up, then the image and the records of the end are those of a
program that is finished only once (`finish_early`).

Both runs go the same course (`SameCourse`): they differ in words, records, fixups and diagnostics,
and no line looks at these.  So they put the same emissions in the same places (`placements`), each
after what its own start has left (`Continues`).  What is left to compare are words: the early flips
are made in places that belong to early emissions, so later words may be written before or after
them.
-/

namespace Retarget

/-! ## Flips before writes -/

namespace Words

theorem grow_grow (words : Array Nat) (length : Nat) :
    grow (grow words length) length = grow words length := by
  refine ext ?_ fun i => ?_
  · rw [size_grow, size_grow]
    omega
  · rw [get_grow]

theorem deposit_grow (words : Array Nat) (place word length : Nat) :
    deposit (grow words length) place word = grow (deposit words place word) length := by
  refine ext ?_ fun i => ?_
  · rw [size_deposit, size_grow, size_grow, size_deposit]
    omega
  · rw [get_deposit, get_grow, get_grow, get_deposit]

theorem depositAll_grow (writes : List (Nat × Nat)) (words : Array Nat) (length : Nat) :
    depositAll writes (grow words length) = grow (depositAll writes words) length := by
  induction writes generalizing words with
  | nil => rfl
  | cons write rest ih => rw [depositAll_cons, depositAll_cons, deposit_grow, ih]

theorem flipAll_grow (width : Nat) (flips : List (Nat × Nat)) (words : Array Nat) (length : Nat) :
    flipAll width flips (grow words length) = grow (flipAll width flips words) length := by
  induction flips generalizing words with
  | nil => rfl
  | cons f rest ih =>
    have hfirst : flip width (grow words length) f.1 f.2 =
        grow (flip width words f.1 f.2) length := by
      rw [flip, flip, get_grow, deposit_grow]
    rw [flipAll_cons, flipAll_cons, hfirst, ih]

/-- Words may be written before or after flips in other places. -/
theorem depositAll_flipAll {width : Nat} {flips writes : List (Nat × Nat)}
    (hflips : ∀ f ∈ flips, f.2 < 2 ^ width)
    (hapart : ∀ f ∈ flips, ∀ write ∈ writes, write.1 ≠ f.1) (words : Array Nat) :
    depositAll writes (flipAll width flips words) =
      flipAll width flips (depositAll writes words) := by
  refine ext ?_ fun i => ?_
  · rw [size_depositAll, size_flipAll, size_flipAll, size_depositAll]
    omega
  · rw [get_depositAll, get_flipAll_eq hflips, get_flipAll_eq hflips, get_depositAll]
    split
    · rename_i hany
      obtain ⟨f, hf, hplace⟩ := List.any_eq_true.1 hany
      have hnone : lastWrite writes i = none :=
        lastWrite_eq_none fun write hwrite => beq_iff_eq.1 hplace ▸ hapart f hf write hwrite
      rw [hnone, Option.getD_none, Option.getD_none]
    · rfl

/-- Flips that are made early, in an image that is filled up early, leave the same words. -/
theorem flipAll_early {width : Nat} {early writes : List (Nat × Nat)}
    (hflips : ∀ f ∈ early, f.2 < 2 ^ width)
    (hapart : ∀ f ∈ early, ∀ write ∈ writes, write.1 ≠ f.1) (later : List (Nat × Nat))
    (words : Array Nat) (length : Nat) :
    grow (flipAll width later
        (depositAll writes (grow (flipAll width early words) length))) length =
      grow (flipAll width (early ++ later) (depositAll writes words)) length := by
  rw [depositAll_grow, flipAll_grow, grow_grow, depositAll_flipAll hflips hapart, flipAll_append]

end Words

section

variable [Machine]

/-! ## Records that are shown twice -/

namespace Placed

variable {p : Placed}

theorem nbits_of_size_eq_zero (hwidth : 1 ≤ p.width) (h : p.size = 0) : p.nbits = 0 := by
  unfold size at h
  unfold nbits
  split at h
  · exact_mod_cast (wordsFor_eq_zero (by omega)).1 h
  · rw [h, Int.natCast_zero, Int.mul_zero]
  · rw [h, Int.natCast_zero, Int.mul_zero]

/-- Nothing is shown of an emission without words. -/
theorem shownIn_of_size_eq_zero (hwidth : 1 ≤ p.width) (h : p.size = 0) (image : Image) :
    p.record.shownIn image = p.record := by
  have hcount : p.record.count image.width = 0 := by
    show (-(Int.fdiv (-p.nbits) image.width)).toNat = 0
    rw [nbits_of_size_eq_zero hwidth h, Int.neg_zero, Int.zero_fdiv]
    rfl
  unfold Record.shownIn
  split
  · rfl
  · rw [Record.wordsIn, hcount]
    rfl

/-- What a record has shown before does not matter, if it is in the image or has nothing to show. -/
theorem shownIn_shownIn (hwidth : 1 ≤ p.width) {image : Image}
    (h : p.size ≠ 0 → image.origin ≤ p.address) (early : Image) :
    (p.record.shownIn early).shownIn image = p.record.shownIn image := by
  by_cases hsize : p.size = 0
  · rw [shownIn_of_size_eq_zero hwidth hsize early]
  · have hle : ¬ p.record.offset < image.origin := Int.not_lt.2 (h hsize)
    by_cases hearly : p.record.offset < early.origin
    · rw [Record.shownIn.eq_1 _ early, if_pos hearly]
    · rw [Record.shownIn.eq_1 _ early, if_neg hearly, Record.shownIn, Record.shownIn, if_neg hle,
        if_neg hle]
      rfl

/-- Flips depend on the symbols of the fixups only. -/
theorem flips_congr {symbols symbols' : String → Option SymbolValue}
    (h : ∀ fix ∈ p.fixups, symbols' fix.sym = symbols fix.sym) (origin width : Int) :
    p.flips symbols' origin width = p.flips symbols origin width := by
  unfold flips
  rw [List.flatMap_def, List.flatMap_def]
  refine congrArg List.flatten (List.map_congr_left fun fix hfix => ?_)
  have hsym : symbols' fix.pending.sym = symbols fix.pending.sym := h fix hfix
  rw [Fixup.flips, Fixup.flips, Pending.value, Pending.value, hsym]

end Placed

/-! ## Programs in two parts -/

/-- Whether an event declares the length of the image. -/
def Event.declares : Event → Bool
  | .length _ => true
  | _ => false

theorem Pass.codelen_run {pass : Pass} {events : List Event}
    (h : ∀ e ∈ events, e.declares = false) : (pass.run events).codelen = pass.codelen := by
  induction events generalizing pass with
  | nil => rfl
  | cons e rest ih =>
    obtain ⟨he, hrest⟩ := List.forall_mem_cons.1 h
    rw [run_cons, ih hrest]
    cases e with
    | length n => cases he
    | width n =>
      rw [step]
      split <;> rfl
    | align n =>
      rw [step]
      split <;> rfl
    | _ => rfl

theorem Pass.run_append (pass : Pass) (before after : List Event) :
    pass.run (before ++ after) = (pass.run before).run after := by
  rw [run, List.foldl_append, ← run, ← run]

/-- Events that do not bind a name leave its value alone. -/
theorem Bindings.find?_after_of_not_binds {symbols : Symbols} {events : List Event} {name : String}
    (h : ∀ e ∈ events, e.binds name = false) :
    find? (symbols.after events) name = find? symbols name := by
  induction events generalizing symbols with
  | nil => rfl
  | cons e rest ih =>
    obtain ⟨he, hrest⟩ := List.forall_mem_cons.1 h
    refine (ih hrest).trans ?_
    cases e with
    | bind other value => exact find?_bind_of_ne symbols value (beq_eq_false_iff_ne.1 he)
    | _ => rfl

namespace Assembler

open Attempt

/-- The rest of a program meets what its first lines leave. -/
theorem trace_append (library : Option Library) (before after : List String) (a : Assembler) :
    trace library (before ++ after) a =
      trace library before a ++ trace library after (assembleLines library before a) := by
  rw [assembleLines_eq_replay]
  unfold trace
  induction before generalizing a with
  | nil => rfl
  | cons line rest ih =>
    rw [List.cons_append, traceLines, traceLines]
    split
    · rename_i haborted
      cases after with
      | nil => rfl
      | cons next more =>
        rw [replay_nil, traceLines, if_pos haborted]
        rfl
    · rw [ih, List.append_assoc, replay_append]

/-! ## The same course -/

/-- An assembler with other words, records, fixups and diagnostics. -/
def withYield (a : Assembler) (words : Array Nat) (records : Array Record) (fixups : Array Fixup)
    (diagnostics : Array Diagnostic) : Assembler :=
  { a with image := { a.image with words }, records, fixups, diagnostics }

/-- Whether two assemblers differ at most in what they have yielded. -/
structure SameCourse (a b : Assembler) : Prop where
  left : a.Sound
  right : b.Sound
  yield : ∃ words records fixups diagnostics, b = a.withYield words records fixups diagnostics

section SameCourse

variable {a b : Assembler}

/-- By induction on the words: whether one can be stored depends on its address. -/
theorem SameCourse.each (h : SameCourse a b) (values : List Int) :
    SameCourse (guarded (Attempt.each store values) a) (guarded (Attempt.each store values) b) := by
  induction values generalizing a b with
  | nil => exact h
  | cons value rest ih =>
    obtain ⟨hs, hs', words, records, fixups, diagnostics, rfl⟩ := h
    have hreaches : (a.withYield words records fixups diagnostics).image.Reaches a.ip ↔
        a.image.Reaches a.ip := hs'.reaches_iff.trans hs.reaches_iff.symm
    by_cases hroom : a.image.Reaches a.ip ∧ Capacity.fieldBits a.width = .ok a.width.toNat
    · obtain ⟨hreach, hbits⟩ := hroom
      have hreach' := hreaches.2 hreach
      rw [Attempt.each, guarded_bind_of_ok (store_of_reaches hs hreach hbits value),
        guarded_bind_of_ok (store_of_reaches hs' hreach' hbits value)]
      exact ih ⟨hs.withWord hreach value, hs'.withWord hreach' value, _, _, _, _, rfl⟩
    · have hroom' : ¬ ((a.withYield words records fixups diagnostics).image.Reaches a.ip ∧
          Capacity.fieldBits a.width = .ok a.width.toNat) :=
        fun hboth => hroom ⟨hreaches.1 hboth.1, hboth.2⟩
      obtain ⟨why, left, hleft, hsize, -⟩ := store_of_error hs hroom value
      obtain ⟨why', right, hright, hsize', -⟩ := store_of_error hs' hroom' value
      rw [Attempt.each, guarded_bind_of_error hleft, guarded_bind_of_error hright]
      exact ⟨⟨hs.image_width, hs.image_origin, hs.width_pos, hs.origin_le, hsize⟩,
        ⟨hs'.image_width, hs'.image_origin, hs'.width_pos, hs'.origin_le, hsize'⟩,
        _, _, _, _, rfl⟩

theorem SameCourse.noted (h : SameCourse a b) (p : Placed) (left right : Array Diagnostic) :
    SameCourse (a.noted p left) (b.noted p right) := by
  obtain ⟨hs, hs', words, records, fixups, diagnostics, rfl⟩ := h
  exact ⟨hs.noted p left, hs'.noted p right, _, _, _, _, rfl⟩

theorem SameCourse.place_eq (h : SameCourse a b) (emission : Emission) :
    b.place emission = a.place emission := by
  obtain ⟨words, records, fixups, diagnostics, rfl⟩ := h.yield
  rfl

theorem SameCourse.emit (h : SameCourse a b) (emission : Emission) :
    SameCourse (a.apply (.emit emission)) (b.apply (.emit emission)) := by
  cases emission with
  | data tokens =>
    rw [apply_data, apply_data, h.place_eq]
    exact (h.noted _ _ _).each _
  | text characters =>
    rw [apply_text, apply_text, h.place_eq]
    exact (h.noted _ _ _).each _
  | code e =>
    obtain ⟨left, -, hleft⟩ := apply_code h.left e
    obtain ⟨right, -, hright⟩ := apply_code h.right e
    have hwidth : b.width = a.width := by
      obtain ⟨words, records, fixups, diagnostics, rfl⟩ := h.yield
      rfl
    have hnoted := h.noted (a.place (.code e)) left right
    rw [hleft, hright, h.place_eq, hwidth]
    rcases Capacity.fieldBits a.width with fault | bits
    · obtain ⟨words, records, fixups, diagnostics, hyield⟩ := hnoted.yield
      refine ⟨hnoted.left.congr rfl rfl rfl rfl, hnoted.right.congr rfl rfl rfl rfl, ?_⟩
      simp only [hyield]
      exact ⟨_, _, _, _, rfl⟩
    · exact hnoted.each _

/-- No event looks at what was yielded. -/
theorem SameCourse.apply (h : SameCourse a b) (e : Event) :
    SameCourse (a.apply e) (b.apply e) := by
  refine ⟨h.left.apply e, h.right.apply e, ?_⟩
  cases e with
  | emit emission => exact (h.emit emission).yield
  | width n =>
    obtain ⟨words, records, fixups, diagnostics, rfl⟩ := h.yield
    rw [Assembler.apply, Assembler.apply, setWidth, setWidth]
    split <;> exact ⟨_, _, _, _, rfl⟩
  | align n =>
    obtain ⟨words, records, fixups, diagnostics, rfl⟩ := h.yield
    by_cases hn : n < 1 ∨ a.codelen < n
    · have hleft : a.apply (.align n) = a.stop .invalidAlignment none := if_pos hn
      have hright : (a.withYield words records fixups diagnostics).apply (.align n) =
          (a.withYield words records fixups diagnostics).stop .invalidAlignment none := if_pos hn
      rw [hleft, hright]
      exact ⟨_, _, _, _, rfl⟩
    · have hleft : a.apply (.align n) = { a with ip := -(-a.ip / n) * n } := if_neg hn
      have hright : (a.withYield words records fixups diagnostics).apply (.align n) =
          { a with ip := -(-a.ip / n) * n }.withYield words records fixups diagnostics := if_neg hn
      rw [hleft, hright]
      exact ⟨_, _, _, _, rfl⟩
  | _ =>
    obtain ⟨words, records, fixups, diagnostics, rfl⟩ := h.yield
    exact ⟨_, _, _, _, rfl⟩

/-- Assemblers on the same course go through the same events. -/
theorem inStep_sameCourse : InStep SameCourse Eq fun _ => True where
  aborted := by
    intro a b h
    obtain ⟨words, records, fixups, diagnostics, rfl⟩ := h.yield
    rfl
  apply := by
    rintro a b e e' h rfl -
    exact h.apply e
  label := by
    intro a b h name
    obtain ⟨words, records, fixups, diagnostics, rfl⟩ := h.yield
    rfl
  instruction := by
    intro a b h text _
    obtain ⟨words, records, fixups, diagnostics, rfl⟩ := h.yield
    exact List.forall₂_same.2 fun _ _ => rfl
  same := fun _ _ => rfl

theorem SameCourse.trace_eq (h : SameCourse a b) (library : Option Library) (lines : List String) :
    trace library lines b = trace library lines a := by
  have hmatched : List.Forall₂ Eq (trace library lines a) (trace library lines b) :=
    inStep_sameCourse.trace lines a b h fun _ _ => trivial
  rw [List.forall₂_eq_eq_eq] at hmatched
  exact hmatched.symm

/-- Finishing changes what was yielded, and forgets the fixups. -/
theorem frame_of_finish (h : finish.runFrom a = (.ok (), b)) :
    b = { a with
      image := b.image, records := b.records, fixups := #[], diagnostics := b.diagnostics } := by
  obtain ⟨c, d, image, hresolve, hrender, -, rfl⟩ := stages_of_finish h
  have hc : c = { a with image := c.image, diagnostics := c.diagnostics } := by
    rw [runFrom_resolveFixups, warnAll_eq, Prod.mk.injEq] at hresolve
    rw [← hresolve.2]
  have hd : d = { c with records := d.records, diagnostics := d.diagnostics } := by
    rw [runFrom_renderRecords, warnAll_eq, Prod.mk.injEq] at hrender
    rw [← hrender.2]
  rw [hd, hc]

theorem Sound.finished (hs : a.Sound) (h : finish.runFrom a = (.ok (), b)) : Finished a b := by
  have hpos := hs.width_pos
  refine finished_of_finish hs.room ?_ h
  rw [hs.image_width]
  omega

/-- Finishing stays on the course. -/
theorem sameCourse_of_finish {library : Option Library} (ha : a.WellFormed library)
    (h : finish.runFrom a = (.ok (), b)) : SameCourse a b := by
  have hb : b.WellFormed library := by
    have hsafe := ha.safe_finish.state
    rw [h] at hsafe
    exact hsafe
  have himage := (ha.toSound.finished h).image
  have hframe := frame_of_finish h
  refine ⟨ha.toSound, hb.toSound, b.image.words, b.records, #[], b.diagnostics, ?_⟩
  rw [himage] at hframe ⊢
  exact hframe

end SameCourse

/-! ## Going on -/

/-- What an event places. -/
def placedBy (a : Assembler) : Event → List Placed
  | .emit emission => [a.place emission]
  | _ => []

/-- What events place, from an assembler on. -/
def placements : List Event → Assembler → List Placed
  | [], _ => []
  | e :: rest, a => a.placedBy e ++ placements rest (a.apply e)

/-- Whether `b` has what `a` has, and behind it all that was placed since. -/
structure Continues (a : Assembler) (placed : List Placed) (b : Assembler) : Prop where
  records : b.records.toList = a.records.toList ++ placed.map Placed.record
  fixups : b.fixups.toList = a.fixups.toList ++ placed.flatMap Placed.fixups
  words : (∀ p ∈ placed, p.Held) →
    b.image.words = Words.depositAll (placed.flatMap Placed.writes) a.image.words

section Continues

variable {a b c : Assembler} {placed more : List Placed} {events : List Event}

theorem Continues.of_frame (hrecords : b.records = a.records) (hfixups : b.fixups = a.fixups)
    (hwords : b.image.words = a.image.words) : Continues a [] b := by
  refine ⟨?_, ?_, fun _ => hwords⟩
  · rw [hrecords, List.map_nil, List.append_nil]
  · rw [hfixups, List.flatMap_nil, List.append_nil]

theorem Continues.trans (h : Continues a placed b) (h' : Continues b more c) :
    Continues a (placed ++ more) c := by
  refine ⟨?_, ?_, fun hheld => ?_⟩
  · rw [h'.records, h.records, List.map_append, List.append_assoc]
  · rw [h'.fixups, h.fixups, List.flatMap_append, List.append_assoc]
  · rw [List.forall_mem_append] at hheld
    rw [h'.words hheld.2, h.words hheld.1, List.flatMap_append, Words.depositAll_append]

theorem continues_apply (hs : a.Sound) (e : Event) : Continues a (a.placedBy e) (a.apply e) := by
  cases e with
  | emit emission =>
    have hemitted := emitted hs emission
    unfold placedBy
    refine ⟨?_, ?_, fun hheld => ?_⟩
    · rw [hemitted.frame, Array.toList_push]
      rfl
    · rw [hemitted.frame, Array.toList_append, List.flatMap_singleton]
    · rw [hemitted.words (hheld _ List.mem_cons_self), List.flatMap_singleton]
  | width n =>
    rw [Assembler.apply, setWidth]
    split <;> exact .of_frame rfl rfl rfl
  | align n =>
    rw [Assembler.apply, align]
    split <;> exact .of_frame rfl rfl rfl
  | _ => exact .of_frame rfl rfl rfl

/-- **A run goes on behind what was there.** -/
theorem continues_replay (hs : a.Sound) (events : List Event) :
    Continues a (placements events a) (replay events a) := by
  induction events generalizing a with
  | nil => exact .of_frame rfl rfl rfl
  | cons e rest ih => exact (continues_apply hs e).trans (ih (hs.apply e))

/-- On the same course the same is placed. -/
theorem SameCourse.placements_eq (h : SameCourse a b) (events : List Event) :
    placements events b = placements events a := by
  induction events generalizing a b with
  | nil => rfl
  | cons e rest ih =>
    have hfirst : b.placedBy e = a.placedBy e := by
      cases e with
      | emit emission => exact congrArg (fun p => [p]) (h.place_eq emission)
      | _ => rfl
    rw [placements, placements, hfirst, ih (h.apply e)]

/-- The first pass places what the assembler does. -/
theorem Follows.placed_run {pass : Pass} (ho : Orderly a events) (h : Follows a pass) :
    (pass.run events).placed = pass.placed ++ placements events a := by
  induction ho generalizing pass with
  | nil => exact (List.append_nil _).symm
  | @cons a e rest running counted _ ih =>
    have hstep : (pass.step e).placed = pass.placed ++ a.placedBy e := by
      cases e with
      | emit emission =>
        rw [placedBy, h.place_eq running]
        rfl
      | width n =>
        rw [Pass.step]
        split <;> exact (List.append_nil _).symm
      | align n =>
        rw [Pass.step]
        split <;> exact (List.append_nil _).symm
      | _ => exact (List.append_nil _).symm
    rw [Pass.run_cons, ih (h.apply running e counted), hstep, placements, List.append_assoc]

end Continues

end Assembler

/-! ## Early flips -/

namespace Pass

variable {pass next : Pass} {later : List Placed}

/-- In a layout that stays settled, early emissions flip the same bits at the end, if their symbols
keep their values. -/
theorem Settled.flips_kept (h : pass.Settled) (h' : next.Settled)
    (hnext : next.placed = pass.placed ++ later) (hwidth : ∀ p ∈ pass.placed, 1 ≤ p.width)
    (hsymbols : ∀ p ∈ pass.placed, ∀ fix ∈ p.fixups,
      Bindings.find? next.symbols fix.sym = Bindings.find? pass.symbols fix.sym) :
    next.flips = pass.flips ++
      later.flatMap (Placed.flips (Bindings.find? next.symbols) next.origin next.width) := by
  rw [flips, flips, hnext, List.flatMap_append]
  refine congrArg (· ++ _) ?_
  rw [List.flatMap_def, List.flatMap_def]
  refine congrArg List.flatten (List.map_congr_left fun p hp => ?_)
  have hmem : p ∈ next.placed := hnext ▸ List.mem_append_left later hp
  rw [h'.flips_eq hmem (hwidth p hp), h.flips_eq hp (hwidth p hp)]
  exact Placed.flips_congr (hsymbols p hp) _ _

/-- An early word has settled the width, if there is one. -/
theorem Settled.flipAll_width (h : pass.Settled) (h' : next.Settled)
    (hnext : next.placed = pass.placed ++ later)
    (hplaced : ∀ p ∈ pass.placed, p.origin ≤ p.address ∧ 1 ≤ p.width) (words : Array Nat) :
    Words.flipAll pass.width.toNat pass.flips words =
      Words.flipAll next.width.toNat pass.flips words := by
  rcases hflips : pass.flips with _ | ⟨f, rest⟩
  · rfl
  · have hf : f ∈ pass.flips := hflips ▸ List.mem_cons_self
    obtain ⟨p, hp, hf⟩ := List.mem_flatMap.1 hf
    obtain ⟨k, hk, -⟩ := h.covers_of_mem_flips hp (hplaced p hp) hf
    have hsize : p.size ≠ 0 := by omega
    have hmem : p ∈ next.placed := hnext ▸ List.mem_append_left later hp
    rw [← (h.layout p hp hsize).2.1, ← (h'.layout p hmem hsize).2.1]

/-- Later words are written in other places than the early flips. -/
theorem Settled.apart (h : pass.Settled) (h' : next.Settled)
    (hnext : next.placed = pass.placed ++ later)
    (hplaced : ∀ p ∈ next.placed, p.origin ≤ p.address ∧ 1 ≤ p.width) :
    ∀ f ∈ pass.flips, ∀ write ∈ later.flatMap Placed.writes, write.1 ≠ f.1 := by
  intro f hf write hwrite heq
  obtain ⟨p, hp, hf⟩ := List.mem_flatMap.1 hf
  obtain ⟨q, hq, hwrite⟩ := List.mem_flatMap.1 hwrite
  have hmem : p ∈ next.placed := hnext ▸ List.mem_append_left later hp
  have hcovers := h.covers_of_mem_flips hp (hplaced p hmem) hf
  have hcovers' := (Placed.covers_of_mem_row q.length_blank hwrite).2
  have hdisjoint := h'.disjoint hplaced
  rw [hnext, List.pairwise_append] at hdisjoint
  exact hdisjoint.2.2 p hp q hq f.1 hcovers (heq ▸ hcovers')

end Pass

/-! ## Programs that are finished twice -/

namespace Assembler

section Early

-- A program comes to `s`.  It is finished early and goes on from there to `u`, or goes on to `t`.
variable {s t u early first last : Assembler} {pass next : Pass} {later : List Placed}
  (hs : Follows s pass) (ht : Follows t next) (hnext : next.placed = pass.placed ++ later)
  (hsettled : next.Settled) (hcontinues : Continues early later u)
  (hearly : Finished s early) (hfirst : Finished u first) (hlast : Finished t last)

include hs ht hnext hsettled hcontinues hearly hfirst hlast

/-- The words of the two runs: the later ones are written into an image with early flips, or before
all flips. -/
theorem image_early (hpass : pass.Settled) (hcodelen : next.codelen = pass.codelen)
    (hcourse : SameCourse t u) (hempty : early.fixups = #[])
    (hsymbols : ∀ fix ∈ s.fixups.toList,
      Bindings.find? next.symbols fix.sym = Bindings.find? pass.symbols fix.sym) :
    first.image = last.image := by
  have hassembled := ht.assembled hlast
  have hheld := ht.held_of_finished hlast
  have hplaced := hassembled.placed
  rw [hnext, List.forall_mem_append] at hheld hplaced
  have hflips : next.flips = pass.flips ++
      later.flatMap (Placed.flips (Bindings.find? next.symbols) next.origin next.width) := by
    refine hpass.flips_kept hsettled hnext (fun p hp => (hplaced.1 p hp).2) fun p hp fix hfix => ?_
    refine hsymbols fix ?_
    rw [hs.fixups]
    exact List.mem_flatMap.2 ⟨p, hp, hfix⟩
  have hstart : early.image.words = Words.grow (Words.flipAll next.width.toNat pass.flips
      (Words.depositAll pass.writes #[])) next.codelen.toNat := by
    rw [hearly.image, hs.sound.image_width, hs.width, hs.flips_eq, hs.codelen, hs.words hheld.1,
      hcodelen, hpass.flipAll_width hsettled hnext hplaced.1]
    rfl
  have hapart := hpass.apart hsettled hnext hassembled.placed
  have hlt : ∀ f ∈ pass.flips, f.2 < 2 ^ next.width.toNat := by
    intro f hf
    have hf : f ∈ next.flips := hflips ▸ List.mem_append_left _ hf
    exact Pass.flips_lt hf
  have hwords := hcontinues.words hheld.2
  have hfixups := hcontinues.fixups
  rw [hempty, Array.toList_empty, List.nil_append] at hfixups
  obtain ⟨words, records, fixups, diagnostics, rfl⟩ := hcourse.yield
  have hlaterFlips : (t.withYield words records fixups diagnostics).flips =
      later.flatMap (Placed.flips (Bindings.find? next.symbols) next.origin next.width) := by
    rw [Assembler.flips, hfixups, List.flatMap_assoc]
    show later.flatMap (Placed.flips (Bindings.find? t.symbols) t.image.origin t.image.width) = _
    rw [ht.symbols, ht.sound.image_origin, ht.sound.image_width, ht.origin, ht.width]
  have hwritten : next.writes = pass.writes ++ later.flatMap Placed.writes := by
    rw [Pass.writes, hnext, List.flatMap_append]
    rfl
  rw [hfirst.image, hassembled.image, hlaterFlips, hwords, hstart, hflips, hwritten,
    Words.depositAll_append, ← Words.flipAll_early hlt hapart, ← ht.width, ← ht.origin,
    ← ht.codelen, ← ht.sound.image_width, ← ht.sound.image_origin]
  rfl

/-- Early records are shown a second time, with the words of the end. -/
theorem records_early (himage : first.image = last.image) : first.records = last.records := by
  have hassembled := ht.assembled hlast
  rw [← Array.toList_inj, hassembled.records, hfirst.records, hcontinues.records, hearly.records,
    hs.records, hnext, himage, List.map_append, List.map_append, List.map_map, List.map_map,
    List.map_map]
  refine congrArg (· ++ _) (List.map_congr_left fun p hp => ?_)
  have hmem : p ∈ next.placed := hnext ▸ List.mem_append_left later hp
  obtain ⟨hle, hwidth⟩ := hassembled.placed p hmem
  refine Placed.shownIn_shownIn hwidth (fun hsize => ?_) early.image
  rw [hassembled.image, ← (hsettled.layout p hmem hsize).1]
  exact hle

end Early

/-- **Finishing early does not change the end.**  Let the layout of a program be settled before its
first word, and let a part of it be assembled and finished.  If the rest declares no length and
binds no symbol that a fixup waits for by then, finishing again leaves the words and records that
are left without the early finish. -/
theorem finish_early {library : Option Library} {active : Option InstructionSet}
    {before after : List String} {early first last : Assembler}
    (hlayout : LayoutFirst (trace library (before ++ after) (fresh active)))
    (hlength : ∀ e ∈ trace library after (assembleLines library before (fresh active)),
      e.declares = false)
    (hkept : ∀ fix ∈ (assembleLines library before (fresh active)).fixups.toList,
      ∀ e ∈ trace library after (assembleLines library before (fresh active)),
        e.binds fix.sym = false)
    (hearly : finish.runFrom (assembleLines library before (fresh active)) = (.ok (), early))
    (hfirst : finish.runFrom (assembleLines library after early) = (.ok (), first))
    (hlast : finish.runFrom
      (assembleLines library after (assembleLines library before (fresh active))) =
        (.ok (), last)) :
    first.image.words = last.image.words ∧ first.records = last.records := by
  rw [trace_append] at hlayout
  have hs := follows_assembleLines library before active
  have hwf : (assembleLines library before (fresh active)).WellFormed library :=
    (wellFormed_fresh active).assembleLines before
  have hpass : ((Pass.start active).run (trace library before (fresh active))).Settled :=
    settled_run_start (List.pairwise_append.1 hlayout).1
  have hsettled : ((Pass.start active).run (trace library before (fresh active) ++
      trace library after (assembleLines library before (fresh active)))).Settled :=
    settled_run_start hlayout
  rw [Pass.run_append] at hsettled
  generalize assembleLines library before (fresh active) = s at *
  generalize (Pass.start active).run (trace library before (fresh active)) = pass at *
  -- Both runs go on through the same events, and place the same behind what is there.
  have ht : Follows (assembleLines library after s) (pass.run (trace library after s)) := by
    rw [assembleLines_eq_replay]
    exact hs.replay (orderly_trace library after s)
  have hnext := hs.placed_run (orderly_trace library after s)
  have hcourse := sameCourse_of_finish hwf hearly
  have hcontinues : Continues early (placements (trace library after s) s)
      (assembleLines library after early) := by
    rw [assembleLines_eq_replay, hcourse.trace_eq, ← hcourse.placements_eq]
    exact continues_replay hcourse.right _
  have hcourse' : SameCourse (assembleLines library after s) (assembleLines library after early) :=
    inStep_sameCourse.assembleLines hcourse fun _ _ => trivial
  have hearly' := hs.sound.finished hearly
  have hfirst' := hcourse'.right.finished hfirst
  have hlast' := hcourse'.left.finished hlast
  have hempty : early.fixups = #[] := by rw [frame_of_finish hearly]
  have hsymbols : ∀ fix ∈ s.fixups.toList,
      Bindings.find? (pass.run (trace library after s)).symbols fix.sym =
        Bindings.find? pass.symbols fix.sym := by
    intro fix hfix
    rw [← ht.symbols, ← hs.symbols, symbols_assembleLines hs.sound]
    exact Bindings.find?_after_of_not_binds (hkept fix hfix)
  have himage := image_early hs ht hnext hsettled hcontinues hearly' hfirst' hlast' hpass
    (Pass.codelen_run hlength) hcourse' hempty hsymbols
  exact ⟨congrArg Image.words himage,
    records_early hs ht hnext hsettled hcontinues hearly' hfirst' hlast' himage⟩

end Assembler

end

namespace Assembler

theorem eq_of_isOk {a : Assembler} {x : Attempt Assembler Unit}
    (h : (x.runFrom a).1.isOk = true) : x.runFrom a = (.ok (), (x.runFrom a).2) := by
  rcases hx : x.runFrom a with ⟨fault | ⟨⟩, b⟩
  · rw [hx] at h
    cases h
  · rfl

open UsualMachine in
theorem finish_early_branching :
    let active := (InstructionSet.ofDocument "branching" branching).toOption
    let before := [".org 4", ".len 14", "back: br NZ, back", ".data back 258"]
    let after := ["br c, back", "done: .data done", ".string \"hi\""]
    let s := assembleLines none before (fresh active)
    s.fixups.size = 2 ∧ ∃ early first last, finish.runFrom s = (.ok (), early) ∧
      finish.runFrom (assembleLines none after early) = (.ok (), first) ∧
      finish.runFrom (assembleLines none after s) = (.ok (), last) ∧
      early.image.words = #[11, 63, 254, 4, 2, 0, 0, 0, 0, 0, 0, 0, 0, 0] ∧
      first.image.words = #[11, 63, 254, 4, 2, 11, 95, 249, 12, 104, 105, 0, 0, 0] ∧
      first.image.words = last.image.words ∧ first.records = last.records := by
  intro active before after s
  have hlayout : LayoutFirst (trace none (before ++ after) (fresh active)) := by decide +kernel
  have hlength : ∀ e ∈ trace none after s, e.declares = false := by decide +kernel
  have hkept : ∀ fix ∈ s.fixups.toList, ∀ e ∈ trace none after s, e.binds fix.sym = false := by
    decide +kernel
  have hruns : s.fixups.size = 2 ∧ (finish.runFrom s).1.isOk = true ∧
      (finish.runFrom (assembleLines none after (finish.runFrom s).2)).1.isOk = true ∧
      (finish.runFrom (assembleLines none after s)).1.isOk = true ∧
      (finish.runFrom s).2.image.words = #[11, 63, 254, 4, 2, 0, 0, 0, 0, 0, 0, 0, 0, 0] ∧
      (finish.runFrom (assembleLines none after (finish.runFrom s).2)).2.image.words =
        #[11, 63, 254, 4, 2, 11, 95, 249, 12, 104, 105, 0, 0, 0] := by
    decide +kernel
  obtain ⟨hsize, hearly, hfirst, hlast, hfilled, hwords⟩ := hruns
  have hearly := eq_of_isOk hearly
  have hfirst := eq_of_isOk hfirst
  have hlast := eq_of_isOk hlast
  exact ⟨hsize, _, _, _, hearly, hfirst, hlast, hfilled, hwords,
    finish_early hlayout hlength hkept hearly hfirst hlast⟩

end Assembler

end Retarget
