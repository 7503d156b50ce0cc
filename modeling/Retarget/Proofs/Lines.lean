import Retarget.Proofs.Inclusion
import Retarget.Proofs.Reachable

/-!
# The run of a line

A program takes its lines guarded: the fault of a line is told, and the program stops there.  A line
that is run by itself gives its fault to whoever runs it, and leaves the state that it has reached.

A line that names no source of the library is counted, binds its label, and then does what at most
one event does (`exists_bodyEvents`).  Of all events only an emission can fail half way: it has
noted its record and queued its fixups by then, and the first words may be in their places.
`StoredUpTo` says which, and `emitted_or_cut` that an emission otherwise does all that it is for.
-/

namespace Retarget

variable [Machine]

/-! ## Events by themselves -/

/-- What an event does by itself: a failure ends the attempt and is not told. -/
def Event.attempt : Event → Attempt Assembler Unit
  | .halt (.failure fault) => throw fault
  | .emit emission => Assembler.perform emission
  | e => modify fun a => a.apply e

namespace Assembler

open Attempt

variable {library : Option Library} {a b : Assembler}

/-- An event is its attempt, of which a failure is told. -/
theorem apply_eq_guarded (a : Assembler) (e : Event) : a.apply e = guarded e.attempt a := by
  cases e with
  | halt notice => cases notice <;> rfl
  | _ => rfl

omit [Machine] in
/-- What follows an attempt only depends on what the attempt comes to. -/
theorem bind_of_run {α β : Type} {x y : Attempt Assembler α} (h : x.runFrom a = y.runFrom b)
    (f : α → Attempt Assembler β) : (x >>= f).runFrom a = (y >>= f).runFrom b := by
  rcases hy : y.runFrom b with ⟨fault | v, c⟩
  · rw [runFrom_bind_error (h.trans hy), runFrom_bind_error hy]
  · rw [runFrom_bind_ok (h.trans hy), runFrom_bind_ok hy]

/-- Whether an attempt is the attempt of one event, which are all its events. -/
def IsEvent (x : Attempt Assembler Unit) (events : List Event) : Prop :=
  ∃ e, events = [e] ∧ x = e.attempt

theorem isEvent_loadArch (library : Option Library) (name : String) :
    IsEvent (loadArch library name) (archEvents library name) := by
  rcases library with _ | lib
  · exact ⟨_, rfl, rfl⟩
  · simp only [loadArch, archEvents]
    rcases lib.arch name with fault | data
    · cases fault <;> exact ⟨_, rfl, rfl⟩
    · simp only
      rcases InstructionSet.ofDocument name data with fault | set
      · cases fault <;> exact ⟨_, rfl, rfl⟩
      · exact ⟨_, rfl, rfl⟩

theorem isEvent_withNumber (word token : String) {act : Int → Assembler → Assembler}
    {event : Int → Event} (h : ∀ n, modify (act n) = (event n).attempt) :
    IsEvent (modify (withNumber word token act)) (numberEvents word token event) := by
  unfold withNumber numberEvents
  rcases Literal.parse token with fault | value
  · exact ⟨_, rfl, rfl⟩
  · exact ⟨_, rfl, h value⟩

section Directive

variable {nested : List String → Attempt Assembler Unit}
  {events : List String → Assembler → List Event}

/-- A source that is not there is one event. -/
theorem isEvent_loadSource {kind : SourceKind} {name : String}
    (h : ∀ lib ∈ library, (lib.source kind name).toOption = none) (a : Assembler) :
    IsEvent (loadSource library nested kind name) (sourceEvents library events kind name a) := by
  rcases library with _ | lib
  · exact ⟨_, rfl, rfl⟩
  · simp only [loadSource, sourceEvents]
    rcases hsource : lib.source kind name with fault | text
    · cases fault <;> exact ⟨_, rfl, rfl⟩
    · have hnone := h lib rfl
      rw [hsource] at hnone
      cases hnone

/-- A directive that names no source of the library is one event. -/
theorem isEvent_obey {text : String}
    (h : ∀ lib ∈ library, ∀ kind name, (Command.parse text).source? = some (kind, name) →
      (lib.source kind name).toOption = none) (a : Assembler) :
    IsEvent (obey library nested text) (directiveEvents library events a text) := by
  rw [Command.source?] at h
  rw [obey, directiveEvents]
  generalize Command.parse text = command at h ⊢
  generalize Text.lower command.word = word at h ⊢
  rcases hdirective : Directive.ofWord? word with _ | directive
  · exact ⟨_, rfl, rfl⟩
  · rw [hdirective] at h
    cases directive with
    | string => exact ⟨_, rfl, rfl⟩
    | data => exact ⟨_, rfl, rfl⟩
    | define =>
      rcases command.args with _ | ⟨name, _ | ⟨value, more⟩⟩ <;> exact ⟨_, rfl, rfl⟩
    | arch =>
      rcases command.args with _ | ⟨name, more⟩
      · exact ⟨_, rfl, rfl⟩
      · exact isEvent_loadArch library name
    | source kind =>
      rcases hargs : command.args with _ | ⟨name, more⟩
      · exact ⟨_, rfl, rfl⟩
      · rw [hargs] at h
        exact isEvent_loadSource (fun lib hlib => h lib hlib kind name rfl) a
    | org =>
      rcases command.args with _ | ⟨token, more⟩
      · exact ⟨_, rfl, rfl⟩
      · exact isEvent_withNumber word token fun _ => rfl
    | len =>
      rcases command.args with _ | ⟨token, more⟩
      · exact ⟨_, rfl, rfl⟩
      · exact isEvent_withNumber word token fun _ => rfl
    | width =>
      rcases command.args with _ | ⟨token, more⟩
      · exact ⟨_, rfl, rfl⟩
      · exact isEvent_withNumber word token fun _ => rfl
    | align =>
      rcases command.args with _ | ⟨token, more⟩
      · exact ⟨_, rfl, rfl⟩
      · exact isEvent_withNumber word token fun _ => rfl

/-- An instruction is one event, which depends on the assembler that meets it. -/
theorem exists_instructionEvents (text : String) (a : Assembler) :
    ∃ e, instructionEvents a text = [e] ∧
      (assembleInstruction text >>= fun _ => pure ()).runFrom a = e.attempt.runFrom a := by
  rw [assembleInstruction, bind_assoc, runFrom_bind_ok (runFrom_get a), instructionEvents]
  rcases a.active with _ | set
  · exact ⟨_, rfl, rfl⟩
  · simp only [choose_eq_pick]
    rcases pick set.arch text none set.rules with fault | last | encoding
    · exact ⟨_, rfl, rfl⟩
    · exact ⟨_, rfl, rfl⟩
    · refine ⟨_, rfl, ?_⟩
      rw [Event.attempt, perform, runFrom_bind_ok (runFrom_get a)]
      simp only [Except.map, bind_assoc]
      rw [runFrom_bind_ok (runFrom_ofExcept _ a)]
      simp only [bind_assoc, pure_bind]

/-! ### Lines -/

section Line

variable {line text : String}

/-- The assembler that has read the front of a line: it is counted, and its label is bound to the
next address. -/
def begun (a : Assembler) (line : String) : Assembler :=
  { a with
    line := a.line + 1
    symbols := (Statement.parse line).label.elim a.symbols fun name =>
      Bindings.bind a.symbols name (.number a.ip) }

theorem replay_headEvents (a : Assembler) (line : String) :
    replay (headEvents a (Statement.parse line)) a = a.begun line := by
  rw [headEvents, begun]
  cases (Statement.parse line).label <;> rfl

theorem Sound.begun (hs : a.Sound) (line : String) : (a.begun line).Sound :=
  hs.congr rfl rfl rfl rfl

/-- A line without a body is counted, and its label is bound. -/
theorem runFrom_assembleLine_nothing (h : (Statement.parse line).body = .nothing) :
    (assembleLine library nested line).runFrom a =
      (.ok none, a.begun line) := by
  rw [← replay_headEvents, assembleLine]
  generalize Statement.parse line = statement at h ⊢
  obtain ⟨label, body⟩ := statement
  subst h
  cases label <;> rfl

/-- A directive is obeyed after its label is bound. -/
theorem runFrom_assembleLine_directive (h : (Statement.parse line).body = .directive text) :
    (assembleLine library nested line).runFrom a =
      (obey library nested text >>= fun _ => pure none).runFrom (a.begun line) := by
  rw [← replay_headEvents, assembleLine, runFrom_bind_ok (runFrom_modify _ a)]
  generalize Statement.parse line = statement at h ⊢
  obtain ⟨label, body⟩ := statement
  subst h
  cases label with
  | none => rfl
  | some name =>
    simp only
    rw [runFrom_bind_ok (runFrom_modify _ _)]
    rfl

/-- An instruction is assembled after its label is bound. -/
theorem runFrom_assembleLine_instruction (h : (Statement.parse line).body = .instruction text) :
    (assembleLine library nested line).runFrom a =
      (assembleInstruction text).runFrom (a.begun line) := by
  rw [← replay_headEvents, assembleLine]
  generalize Statement.parse line = statement at h ⊢
  obtain ⟨label, body⟩ := statement
  subst h
  cases label <;> rfl

/-- A line that names no source of the library and has a body is one event behind its number and its
label. -/
theorem exists_event (h : ∀ lib ∈ library, lib.provided line = none)
    (hne : (Statement.parse line).body ≠ .nothing) :
    ∃ e, bodyEvents library events (a.begun line) (Statement.parse line).body = [e] ∧
      (assembleLine library nested line >>= fun _ => pure ()).runFrom a =
        e.attempt.runFrom (a.begun line) := by
  rcases hbody : (Statement.parse line).body with _ | text | text
  · exact absurd hbody hne
  · have hsource : ∀ lib ∈ library, ∀ kind name,
        (Command.parse text).source? = some (kind, name) →
          (lib.source kind name).toOption = none := by
      intro lib hlib kind name hname
      have hnone := h lib hlib
      simpa only [Library.provided, Statement.source?, hbody, hname] using hnone
    have hobey : IsEvent (obey library nested text)
        (directiveEvents library events (a.begun line) text) := isEvent_obey hsource _
    obtain ⟨e, he, hattempt⟩ := hobey
    rw [bodyEvents]
    refine ⟨e, he, ?_⟩
    rw [bind_of_run (runFrom_assembleLine_directive hbody), hattempt, bind_assoc]
    simp only [pure_bind, bind_pure_unit]
  · obtain ⟨e, he, hrun⟩ := exists_instructionEvents text (a.begun line)
    refine ⟨e, he, ?_⟩
    rw [bind_of_run (runFrom_assembleLine_instruction hbody), hrun]

/-- **A line that names no source of the library is one event** behind its number and its label, or
nothing more than these. -/
theorem exists_bodyEvents (h : ∀ lib ∈ library, lib.provided line = none) :
    (assembleLine library nested line).runFrom a = (.ok none, a.begun line) ∨
      ∃ e, bodyEvents library events (a.begun line) (Statement.parse line).body = [e] ∧
        (assembleLine library nested line >>= fun _ => pure ()).runFrom a =
          e.attempt.runFrom (a.begun line) := by
  by_cases hbody : (Statement.parse line).body = .nothing
  · exact .inl (runFrom_assembleLine_nothing hbody)
  · exact .inr (exists_event h hbody)

/-- Only an instruction gives a record. -/
theorem instruction_of_assembleLine {record : Record}
    (h : (assembleLine library nested line).runFrom a = (.ok (some record), b)) :
    ∃ text, (Statement.parse line).body = .instruction text ∧
      (assembleInstruction text).runFrom (a.begun line) = (.ok (some record), b) := by
  rcases hbody : (Statement.parse line).body with _ | text | text
  · rw [runFrom_assembleLine_nothing hbody] at h
    cases h
  · rw [runFrom_assembleLine_directive hbody] at h
    obtain ⟨u, c, -, hnone⟩ := runFrom_bind_eq_ok.1 h
    cases hnone
  · exact ⟨text, rfl, runFrom_assembleLine_instruction hbody ▸ h⟩

end Line

end Directive

/-! ## Storing some of the words -/

/-- How far words are stored: the first `count` of `values` stand in the image of `b`, from the next
address of `a` on, and every other word reads as before. -/
structure StoredUpTo (a : Assembler) (values : List Int) (count : Nat) (b : Assembler) : Prop where
  frame : b = { a with
    ip := a.ip + count
    image := { a.image with words := b.image.words } }
  count_le : count ≤ values.length
  stored : ∀ k < count, ∀ value ∈ values[k]?,
    Words.get b.image.words (a.image.place a.ip + k) = Bits.low a.width.toNat value
  kept : ∀ i, i < a.image.place a.ip ∨ a.image.place a.ip + count ≤ i →
    Words.get b.image.words i = Words.get a.image.words i

/-- Whether the word at place `k` behind the next address cannot be stored: a word of this width
cannot be held, or there is no room for it. -/
def NoPlaceFor (a : Assembler) (k : Nat) : Prop :=
  (∀ bits, Capacity.fieldBits a.width ≠ .ok bits) ∨ Machine.words ≤ a.image.place a.ip + k

theorem StoredUpTo.cons {values : List Int} {value : Int} {count : Nat}
    (hreach : a.image.Reaches a.ip) (h : StoredUpTo (a.withWord value) values count b) :
    StoredUpTo a (value :: values) (count + 1) b := by
  have hplace := place_withWord hreach value
  obtain ⟨hframe, hcount, hstored, hkept⟩ := h
  rw [hplace] at hstored hkept
  refine ⟨?_, ?_, ?_, ?_⟩
  · rw [hframe]
    simp only [withWord, Nat.cast_add, Nat.cast_one, Assembler.mk.injEq, and_true]
    omega
  · rw [List.length_cons]
    omega
  · intro k hk v hv
    cases k with
    | zero =>
      obtain rfl : value = v := by simpa using hv
      rw [Nat.add_zero, hkept _ (.inl (Nat.lt_succ_self _))]
      exact (Words.get_deposit _ _ _ _).trans (if_pos rfl)
    | succ k =>
      have hword := hstored k (by omega) v (by simpa using hv)
      rwa [show a.image.place a.ip + 1 + k = a.image.place a.ip + (k + 1) by omega] at hword
  · intro i hi
    rw [hkept i (by omega)]
    exact (Words.get_deposit _ _ _ _).trans (if_neg (by omega))

/-- **Storing words goes as far as it can.**  By induction on the words: the first that has no place
ends it. -/
theorem storedUpTo_of_each (hs : a.Sound) {values : List Int} {result : Except Fault Unit}
    (h : (Attempt.each store values).runFrom a = (result, b)) :
    ∃ count, StoredUpTo a values count b ∧
      (result = .ok () ∧ count = values.length ∨
        (∃ why, result = .error (.excess why)) ∧ count < values.length ∧ a.NoPlaceFor count) := by
  induction values generalizing a with
  | nil =>
    cases h
    refine ⟨0, ⟨?_, Nat.le_refl 0, ?_, fun _ _ => rfl⟩, .inl ⟨rfl, rfl⟩⟩
    · simp
    · intro k hk
      omega
  | cons value rest ih =>
    by_cases hplace : a.image.Reaches a.ip ∧ Capacity.fieldBits a.width = .ok a.width.toNat
    · obtain ⟨hreach, hbits⟩ := hplace
      rw [Attempt.each, runFrom_bind_ok (store_of_reaches hs hreach hbits value)] at h
      obtain ⟨count, hstored, hend⟩ := ih (hs.withWord hreach value) h
      refine ⟨count + 1, hstored.cons hreach, ?_⟩
      rcases hend with ⟨hok, hcount⟩ | ⟨hwhy, hcount, hno⟩
      · exact .inl ⟨hok, by rw [hcount, List.length_cons]⟩
      · refine .inr ⟨hwhy, by rw [List.length_cons]; omega, ?_⟩
        rw [NoPlaceFor, place_withWord hreach value] at hno
        rw [NoPlaceFor]
        rcases hno with hno | hno
        · exact .inl hno
        · exact .inr (by omega)
    · obtain ⟨why, words, hstore, -, -, hget⟩ := store_of_error hs hplace value
      rw [Attempt.each, runFrom_bind_error hstore] at h
      obtain ⟨rfl, rfl⟩ := Prod.mk.inj h
      refine ⟨0, ⟨?_, Nat.zero_le _, ?_, ?_⟩, .inr ⟨⟨why, rfl⟩, Nat.zero_lt_succ _, ?_⟩⟩
      · simp
      · intro k hk
        omega
      · intro i _
        exact hget i
      · by_cases hreach : a.image.Reaches a.ip
        · left
          intro bits hbits
          obtain ⟨-, rfl⟩ := Capacity.fieldBits_eq_ok hbits
          exact hplace ⟨hreach, hbits⟩
        · right
          rw [hs.reaches_iff] at hreach
          omega

/-! ## Emitting by itself -/

theorem runFrom_emitWords (values : List Int) (a : Assembler) :
    (emitWords values >>= fun _ => pure ()).runFrom a =
      (Attempt.each store values).runFrom { a with
        records := a.records.push
          { line := a.line, offset := a.ip, nbits := a.width * values.length } } := by
  have hnote : (note (a.width * values.length)).runFrom a =
      (.ok { line := a.line, offset := a.ip, nbits := a.width * values.length }, { a with
        records := a.records.push
          { line := a.line, offset := a.ip, nbits := a.width * values.length } }) := rfl
  rw [emitWords, bind_assoc, runFrom_bind_ok (runFrom_get a), bind_assoc, runFrom_bind_ok hnote]
  simp only [bind_assoc, pure_bind, bind_pure_unit]

theorem perform_text (characters : List Char) (a : Assembler) :
    (perform (.text characters)).runFrom a =
      (Attempt.each store (characters.map fun c => (c.toNat : Int))).runFrom
        (a.noted (a.place (.text characters)) a.diagnostics) := by
  rw [perform, runFrom_emitWords, List.length_map]
  simp only [noted, Placed.fixups, place, Array.append_empty]
  rfl

theorem perform_data (tokens : List String) (a : Assembler) :
    (perform (.data tokens)).runFrom a =
      (Attempt.each store (tokens.map dataValue)).runFrom
        (a.noted (a.place (.data tokens)) a.diagnostics) := by
  rw [perform, obeyData, runFrom_bind_ok (runFrom_modify _ a), runFrom_emitWords, List.length_map]
  rfl

/-- An instruction whose words can be held is noted, and its words are stored; else it is noted at
least. -/
theorem perform_code (hs : a.Sound) (e : Encoding) :
    ∃ diagnostics, a.TellsLength diagnostics ∧
      ((perform (.code e)).runFrom a =
          (Attempt.each store ((a.place (.code e)).blank.map fun (word : Nat) =>
            (word : Int))).runFrom (a.noted (a.place (.code e)) diagnostics) ∨
        ∃ why, (perform (.code e)).runFrom a =
            (.error (.excess why), a.noted (a.place (.code e)) diagnostics) ∧ a.NoPlaceFor 0) := by
  have hpos := hs.width_pos
  obtain ⟨diagnostics, htold, hrun⟩ :=
    runFrom_emitInstruction hpos (Instruction.ofFields a.ip a.line e.fields)
  refine ⟨diagnostics, htold, ?_⟩
  rw [perform, runFrom_bind_ok (runFrom_get a), bind_of_run hrun, Instruction.ofFields,
    e.lengthOf_fields]
  have hqueued : ∀ fixups : Array Fixup, 1 ≤ { a with diagnostics, fixups }.width := fun _ => hpos
  rcases hbits : Capacity.fieldBits a.width with fault | bits
  · right
    obtain ⟨why, rfl⟩ := Capacity.fieldBits_eq_error (by omega) hbits
    refine ⟨why, ?_, .inl fun bits hok => ?_⟩
    · exact runFrom_bind_error (runFrom_emit_of_error (hqueued _) hbits _ _) _
    · rw [hbits] at hok
      cases hok
  · left
    obtain ⟨-, rfl⟩ := Capacity.fieldBits_eq_ok hbits
    rw [bind_of_run (runFrom_emit_of_ok (hqueued _) hbits _ _)]
    simp only [bind_assoc, pure_bind, bind_pure_unit]
    rfl

/-- **What an emission does by itself.**  It notes its record, queues its fixups and stores its
words; where not all of them have a place, it fails after the first ones. -/
theorem emitted_or_cut (hs : a.Sound) (emission : Emission) {result : Except Fault Unit}
    (h : (perform emission).runFrom a = (result, b)) :
    ∃ diagnostics values count, a.TellsLength diagnostics ∧
      values.map (Bits.low a.width.toNat) = (a.place emission).blank ∧
      StoredUpTo (a.noted (a.place emission) diagnostics) values count b ∧
      (result = .ok () ∧ count = values.length ∨
        (∃ why, result = .error (.excess why)) ∧ a.NoPlaceFor count) := by
  -- Once the words are being stored, it does not matter any more what they are the words of.
  have hstoring : ∀ {diagnostics : Array Diagnostic} {values : List Int},
      a.TellsLength diagnostics → values.map (Bits.low a.width.toNat) = (a.place emission).blank →
      (Attempt.each store values).runFrom (a.noted (a.place emission) diagnostics) = (result, b) →
      ∃ diagnostics values count, a.TellsLength diagnostics ∧
        values.map (Bits.low a.width.toNat) = (a.place emission).blank ∧
        StoredUpTo (a.noted (a.place emission) diagnostics) values count b ∧
        (result = .ok () ∧ count = values.length ∨
          (∃ why, result = .error (.excess why)) ∧ a.NoPlaceFor count) := by
    intro diagnostics values htold hvalues heach
    obtain ⟨count, hstored, hend⟩ := storedUpTo_of_each (hs.noted _ diagnostics) heach
    refine ⟨diagnostics, values, count, htold, hvalues, hstored, ?_⟩
    rcases hend with hok | ⟨hwhy, -, hno⟩
    · exact .inl hok
    · exact .inr ⟨hwhy, hno⟩
  cases emission with
  | text characters =>
    rw [perform_text] at h
    refine hstoring (.inl rfl) ?_ h
    rw [List.map_map]
    rfl
  | data tokens =>
    rw [perform_data] at h
    refine hstoring (.inl rfl) ?_ h
    rw [List.map_map]
    rfl
  | code e =>
    have hvalues : ((a.place (.code e)).blank.map fun (word : Nat) => (word : Int)).map
        (Bits.low a.width.toNat) = (a.place (.code e)).blank := by
      rw [List.map_map]
      refine (List.map_congr_left fun word hword => ?_).trans (List.map_id _)
      exact (Bits.low_natCast _ _).trans (Nat.mod_eq_of_lt (Placed.blank_lt hword))
    obtain ⟨diagnostics, htold, hrun | ⟨why, hrun, hno⟩⟩ := perform_code hs e
    · exact hstoring htold hvalues (hrun ▸ h)
    · rw [hrun] at h
      obtain ⟨rfl, rfl⟩ := Prod.mk.inj h
      refine ⟨diagnostics, _, 0, htold, hvalues, ⟨?_, Nat.zero_le _, ?_, fun _ _ => rfl⟩,
        .inr ⟨⟨why, rfl⟩, hno⟩⟩
      · simp
      · intro k hk
        omega

end Assembler

end Retarget
