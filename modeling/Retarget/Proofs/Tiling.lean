import Retarget.Proofs.Visits

/-!
# Emitted lines do not overlap

A line that emits notes a record at the next address and moves the address past its words.  No other
line moves it, apart from those about the layout and those that align.  So once the layout is
settled, the lines that emit fill ranges of addresses one behind the other, with a gap only where a
line between them aligns (`tiling_afterCalls`).  This keeps what is patched into one line later on
away from the words of the others.

What a line does to addresses, records and symbols is read off its text first (`Visit.shows`) and
then off its run (`Visit.effect`, `Visit.symbols_after`), with one case for each thing that a line
can do.  The run lemmas on `Course` only use these.  A line that aligns is taken up separately
(`Visit.alignment`), since its outcomes are told in full.

A line of which not all words can be held fills the addresses of its first words only, although its
record is about all of them.  If lines are taken further on, they overlap that record
(`not_disjoint_overwide`).
-/

namespace Retarget

open Assembler Attempt

/-! ## What a line asks for -/

/-- The directive of a statement and its arguments. -/
def Statement.directive? (statement : Statement) : Option (Directive × List String) :=
  match statement.body with
  | .directive text =>
    (Directive.ofWord? (Text.lower (Command.parse text).word)).map fun directive =>
      (directive, (Command.parse text).args)
  | _ => none

namespace Visit

/-- The directive of a line and its arguments. -/
def directive? (v : Visit) : Option (Directive × List String) :=
  (Statement.parse v.line).directive?

/-- Whether a line is about the origin or the width of words. -/
def setsLayout (v : Visit) : Bool :=
  match v.directive? with
  | some (.org, _) => true
  | some (.width, _) => true
  | some (.arch, _) => true
  | _ => false

/-- The number to a multiple of which a line asks to move on. -/
def alignment? (v : Visit) : Option Int :=
  match v.directive? with
  | some (.align, token :: _) => (Literal.parse token).toOption
  | _ => none

/-- Whether a line asks to move on to a multiple of a number that can be one. -/
def aligns (v : Visit) : Bool :=
  v.alignment?.any fun n => decide (1 ≤ n ∧ n ≤ v.before.codelen)

/-- The symbol that a line defines behind its label, and its value. -/
def definition? (v : Visit) : Option (String × SymbolValue) :=
  match v.directive? with
  | some (.define, name :: value :: _) => some (Text.lower name, .text value)
  | _ => none

/-- The symbols that a line binds, in order: its label to the address at which it is taken, and the
one that it defines. -/
def bindings (v : Visit) : List (String × SymbolValue) :=
  ((Statement.parse v.line).label.toList.map fun name => (name, .number v.before.ip)) ++
    v.definition?.toList

variable {v : Visit} {directive : Directive} {args : List String}

theorem exists_of_directive? (h : v.directive? = some (directive, args)) :
    ∃ text, (Statement.parse v.line).body = .directive text ∧
      Directive.ofWord? (Text.lower (Command.parse text).word) = some directive ∧
      (Command.parse text).args = args := by
  rw [directive?, Statement.directive?] at h
  rcases hbody : (Statement.parse v.line).body with _ | text | text
  · rw [hbody] at h
    cases h
  · rw [hbody] at h
    obtain ⟨found, hword, hpair⟩ := Option.map_eq_some_iff.1 h
    obtain ⟨rfl, rfl⟩ := Prod.mk.inj hpair
    exact ⟨text, rfl, hword, rfl⟩
  · rw [hbody] at h
    cases h

theorem definition?_of_ne (h : v.directive? = some (directive, args))
    (hne : directive ≠ .define) : v.definition? = none := by
  rw [definition?, h]
  cases directive with
  | define => exact absurd rfl hne
  | _ => rfl

end Visit

/-- Symbols with more bindings. -/
def Bindings.bindAll (symbols : Symbols) (bound : List (String × SymbolValue)) : Symbols :=
  bound.foldl (fun symbols p => Bindings.bind symbols p.1 p.2) symbols

theorem Bindings.bindAll_append (symbols : Symbols) (bound more : List (String × SymbolValue)) :
    bindAll symbols (bound ++ more) = bindAll (bindAll symbols bound) more :=
  List.foldl_append

/-- The value of a name is that of its last binding. -/
theorem Bindings.find?_bindAll (symbols : Symbols) (bound : List (String × SymbolValue))
    (name : String) :
    find? (bindAll symbols bound) name = (bound.reverse.lookup name).or (find? symbols name) := by
  induction bound generalizing symbols with
  | nil => rfl
  | cons p rest ih =>
    have hstep : bindAll symbols (p :: rest) = bindAll (bind symbols p.1 p.2) rest := rfl
    rw [hstep, ih, find?_bind, List.reverse_cons, List.lookup_append, Option.or_assoc]
    congr 1
    by_cases hname : p.1 = name
    · simp [hname, List.lookup]
    · have hne : (name == p.1) = false := by simpa using Ne.symm hname
      simp [hname, hne, List.lookup]

theorem Bindings.mem_of_find? {α : Type} {b : Bindings α} {name : String} {value : α}
    (h : find? b name = some value) : (name, value) ∈ b := by
  induction b with
  | nil => cases h
  | cons p rest ih =>
    obtain ⟨key, other⟩ := p
    rw [find?] at h
    split at h
    · rename_i hkey
      cases h
      exact hkey ▸ List.mem_cons_self
    · exact List.mem_cons_of_mem _ (ih h)

theorem Directive.word_of_align {word : String} (h : ofWord? word = some .align) :
    word = ".align" := by
  have hmem : (word, Directive.align) ∈ table := Bindings.mem_of_find? h
  simpa [table] using hmem

theorem isLeast_roundUp (address : Int) {n : Int} (h : 1 ≤ n) :
    IsLeast {m | n ∣ m ∧ address ≤ m} (-(-address / n) * n) := by
  refine ⟨⟨Int.dvd_mul_left _ n, le_roundUp address h⟩, ?_⟩
  rintro _ ⟨⟨k, rfl⟩, hle⟩
  have hquotient : -k ≤ -address / n := by
    rw [Int.le_ediv_iff_mul_le (by omega), Int.neg_mul, Int.mul_comm]
    omega
  rw [Int.mul_comm n k]
  exact Int.mul_le_mul_of_nonneg_right (by omega) (by omega)

section

variable [Machine]

/-- Whether a line notes a record. -/
def Visit.emits (library : Option Library) (v : Visit) : Bool :=
  decide (v.before.records.size < (v.after library).records.size)

/-! ## The events of a line and its text -/

/-- Whether an event neither moves to a multiple nor binds a symbol. -/
def Event.isFree : Event → Bool
  | .bind _ _ => false
  | .align _ => false
  | _ => true

namespace Visit

variable {library : Option Library} {v : Visit}

/-- How events come from the text of a line. -/
structure Shows (v : Visit) (events : List Event) : Prop where
  layout : ∀ e ∈ events, e.reshapes = true → v.setsLayout = true
  aligned : ∀ n, .align n ∈ events → v.alignment? = some n
  symbols : ∀ symbols : Symbols,
    symbols.after events = Bindings.bindAll symbols v.definition?.toList

theorem Shows.nothing (h : v.definition? = none) : v.Shows [] := by
  refine ⟨List.forall_mem_nil _, fun n hn => absurd hn List.not_mem_nil, fun symbols => ?_⟩
  rw [h]
  rfl

theorem Shows.free {e : Event} (he : e.isFree = true)
    (hlayout : e.reshapes = true → v.setsLayout = true) (h : v.definition? = none) :
    v.Shows [e] := by
  refine ⟨List.forall_mem_singleton.2 hlayout, fun n hn => ?_, fun symbols => ?_⟩
  · obtain rfl := List.mem_singleton.1 hn
    cases he
  · rw [h]
    cases e with
    | bind name value => cases he
    | _ => rfl

/-- The event of a directive with a number, or that its argument is none. -/
theorem Shows.number {word token : String} {event : Int → Event} (h : v.definition? = none)
    (hevent : ∀ n, Literal.parse token = .ok n → v.Shows [event n]) :
    v.Shows (numberEvents word token event) := by
  rw [numberEvents]
  rcases hparse : Literal.parse token with fault | n
  · exact .free rfl (by rintro ⟨⟩) h
  · exact hevent n hparse

/-- The events of loading an architecture. -/
theorem Shows.arch (library : Option Library) (name : String) (hlayout : v.setsLayout = true)
    (h : v.definition? = none) : v.Shows (archEvents library name) := by
  have hsingle : ∀ e : Event, e.isFree = true → v.Shows [e] := fun e he =>
    .free he (fun _ => hlayout) h
  rcases library with _ | lib
  · exact hsingle _ rfl
  · rw [archEvents]
    rcases lib.arch name with fault | data
    · cases fault <;> exact hsingle _ rfl
    · simp only
      rcases InstructionSet.ofDocument name data with fault | set
      · cases fault <;> exact hsingle _ rfl
      · exact hsingle _ rfl

/-- The events of a line that names a source, without those of the source. -/
theorem Shows.source (library : Option Library) (kind : SourceKind) (name : String) (a : Assembler)
    (h : v.definition? = none) :
    v.Shows (sourceEvents library (fun _ _ => []) kind name a) := by
  have hhalt : ∀ notice, v.Shows [.halt notice] := fun notice => .free rfl (by rintro ⟨⟩) h
  rcases library with _ | lib
  · exact hhalt _
  · rw [sourceEvents]
    rcases lib.source kind name with fault | text
    · cases fault <;> exact hhalt _
    · exact .nothing h

theorem Shows.instruction (a : Assembler) (text : String) (h : v.definition? = none) :
    v.Shows (instructionEvents a text) := by
  rw [instructionEvents]
  rcases a.active with _ | set
  · exact .free rfl (by rintro ⟨⟩) h
  · simp only
    rcases pick set.arch text none set.rules with fault | last | encoding <;>
      exact .free rfl (by rintro ⟨⟩) h

theorem Shows.directive (library : Option Library) (a : Assembler) {text : String}
    (hbody : (Statement.parse v.line).body = .directive text) :
    v.Shows (directiveEvents library (fun _ _ => []) a text) := by
  have hdirective : v.directive? =
      (Directive.ofWord? (Text.lower (Command.parse text).word)).map fun directive =>
        (directive, (Command.parse text).args) := by
    rw [directive?, Statement.directive?, hbody]
  rw [directiveEvents]
  generalize Command.parse text = command at hdirective ⊢
  rcases hword : Directive.ofWord? (Text.lower command.word) with _ | directive
  · rw [hword] at hdirective
    exact .free rfl (by rintro ⟨⟩) (by rw [definition?, hdirective]; rfl)
  · rw [hword, Option.map_some] at hdirective
    generalize command.args = args at hdirective ⊢
    -- Only a definition binds a symbol behind the label, so all other directives share that part.
    by_cases hdefine : directive = .define
    · subst hdefine
      rcases args with _ | ⟨name, _ | ⟨value, more⟩⟩
      · exact .free rfl (by rintro ⟨⟩) (by rw [definition?, hdirective])
      · exact .free rfl (by rintro ⟨⟩) (by rw [definition?, hdirective])
      · refine ⟨List.forall_mem_singleton.2 (by rintro ⟨⟩), fun n hn => ?_, fun symbols => ?_⟩
        · cases List.mem_singleton.1 hn
        · rw [definition?, hdirective]
          rfl
    · have hdef := definition?_of_ne hdirective hdefine
      have htell : ∀ notice, v.Shows [.tell notice] := fun notice => .free rfl (by rintro ⟨⟩) hdef
      cases directive with
      | define => exact absurd rfl hdefine
      | string => exact .free rfl (by rintro ⟨⟩) hdef
      | data => exact .free rfl (by rintro ⟨⟩) hdef
      | arch =>
        rcases args with _ | ⟨name, more⟩
        · exact htell _
        · exact .arch library name (by rw [setsLayout, hdirective]) hdef
      | source kind =>
        rcases args with _ | ⟨name, more⟩
        · exact htell _
        · exact .source library kind name a hdef
      | org =>
        rcases args with _ | ⟨token, more⟩
        · exact htell _
        · exact .number hdef fun n _ => .free rfl (fun _ => by rw [setsLayout, hdirective]) hdef
      | len =>
        rcases args with _ | ⟨token, more⟩
        · exact htell _
        · exact .number hdef fun n _ => .free rfl (by rintro ⟨⟩) hdef
      | width =>
        rcases args with _ | ⟨token, more⟩
        · exact htell _
        · exact .number hdef fun n _ => .free rfl (fun _ => by rw [setsLayout, hdirective]) hdef
      | align =>
        rcases args with _ | ⟨token, more⟩
        · exact htell _
        · refine .number hdef fun n hparse => ⟨List.forall_mem_singleton.2 (by rintro ⟨⟩), ?_, ?_⟩
          · intro m hm
            cases List.mem_singleton.1 hm
            simp only [alignment?, hdirective, hparse]
            rfl
          · intro symbols
            rw [hdef]
            rfl

/-- **The events of a line are those that its text asks for.** -/
theorem shows (library : Option Library) (a : Assembler) (v : Visit) :
    v.Shows (bodyEvents library (fun _ _ => []) a (Statement.parse v.line).body) := by
  rcases hbody : (Statement.parse v.line).body with _ | text | text
  · refine .nothing ?_
    rw [definition?, directive?, Statement.directive?, hbody]
  · rw [bodyEvents]
    exact .directive library a hbody
  · refine .instruction a text ?_
    rw [definition?, directive?, Statement.directive?, hbody]

end Visit

/-! ## What a line leaves -/

/-- Whether the last word of a record stands right before an address, where words have `width`
bits. -/
def Record.EndsAt (width : Int) (r : Record) (address : Int) : Prop :=
  wordCount r.nbits width = .ok (address - r.offset)

theorem Placed.endsAt_record {p : Placed} (h : 1 ≤ p.width) :
    p.record.EndsAt p.width (p.address + p.size) := by
  have hoffset : p.address + p.size - p.record.offset = p.size := add_sub_cancel_left p.address _
  rw [Record.EndsAt, hoffset, wordCount, if_neg (by omega), record, nbits, size]
  split
  · rw [neg_fdiv_neg_eq_wordsFor _ h]
  · rw [neg_fdiv_neg_mul h]
  · rw [neg_fdiv_neg_mul h]

namespace Visit

variable {library : Option Library} {v : Visit}

/-- Whether a record is that of a line: it starts at the next address, and the addresses from there
to the next address after the line are those of its words.  If the line fails, they are those of its
first words: the next word has no place. -/
structure Notes (library : Option Library) (width : Int) (v : Visit) (r : Record) : Prop where
  line : r.line = v.before.line + 1
  offset : r.offset = v.before.ip
  filled : ∃ stop, r.EndsAt width stop ∧
    ((∃ record, (v.run library).1 = .ok record) ∧ (v.after library).ip = stop ∨
      ∃ why stored, (v.run library).1 = .error (.excess why) ∧ v.before.NoPlaceFor stored ∧
        (v.after library).ip = v.before.ip + stored ∧ v.before.ip + stored ≤ stop)

theorem notes_bare {width : Int} {r : Record} :
    v.Notes library width r.bare ↔ v.Notes library width r :=
  ⟨fun h => ⟨h.line, h.offset, h.filled⟩, fun h => ⟨h.line, h.offset, h.filled⟩⟩

/-- The records without their texts that a line meets, and those that it leaves. -/
def Adds (library : Option Library) (v : Visit) (records : List Record) : Prop :=
  (v.after library).records.toList.map Record.bare =
    v.before.records.toList.map Record.bare ++ records.map Record.bare

/-- Whether a line keeps the origin and the width of words, and does not move back. -/
structure Steady (library : Option Library) (v : Visit) : Prop where
  origin : (v.after library).origin = v.before.origin
  width : (v.after library).width = v.before.width
  ip_le : v.before.ip ≤ (v.after library).ip

/-- What a line can do to addresses and records. -/
inductive Effect (library : Option Library) (v : Visit) : Prop where
  | reshapes (asked : v.setsLayout = true) (quiet : v.Adds library [])
  | aligns (asked : v.aligns = true) (steady : v.Steady library) (quiet : v.Adds library [])
  | emits {r : Record} (notes : v.Notes library v.before.width r) (steady : v.Steady library)
      (adds : v.Adds library [r])
  | stays (ip : (v.after library).ip = v.before.ip) (steady : v.Steady library)
      (quiet : v.Adds library [])

/-- A line that emits, by what an emission does by itself. -/
theorem effect_of_emission (hs : v.before.Sound) {emission : Emission}
    (run : (perform emission).runFrom v.met =
      ((v.run library).1.map fun _ => (), v.after library)) : Effect library v := by
  have hsound : v.met.Sound := hs.begun v.line
  obtain ⟨diagnostics, values, count, -, hvalues, hstored, hend⟩ :=
    emitted_or_cut hsound emission run
  have hlength : values.length = (v.met.place emission).size := by
    rw [← Placed.length_blank, ← hvalues, List.length_map]
  have hip : (v.after library).ip = v.before.ip + count := congrArg Assembler.ip hstored.frame
  have horigin : (v.after library).origin = v.before.origin :=
    (congrArg Assembler.origin hstored.frame).trans rfl
  have hwidth : (v.after library).width = v.before.width :=
    (congrArg Assembler.width hstored.frame).trans rfl
  have hrecords : (v.after library).records =
      v.before.records.push (v.met.place emission).record :=
    congrArg Assembler.records hstored.frame
  have hends : (v.met.place emission).record.EndsAt v.before.width
      (v.before.ip + (v.met.place emission).size) := Placed.endsAt_record hs.width_pos
  have hcount := hlength ▸ hstored.count_le
  refine .emits ⟨rfl, rfl, _, hends, ?_⟩ ⟨horigin, hwidth, by omega⟩ ?_
  · rcases hend with ⟨hok, hall⟩ | ⟨⟨why, herror⟩, hno⟩
    · left
      exact ⟨ok_of_map_unit hok, by rw [hip, hall, hlength]⟩
    · right
      exact ⟨why, count, error_of_map_unit herror, hno, hip, by omega⟩
  · rw [Adds, hrecords, Array.toList_push, List.map_append]

theorem adds_nil (h : (v.after library).records.toList.map Record.bare =
    v.before.records.toList.map Record.bare) : v.Adds library [] := by
  rw [Adds, h, List.map_nil, List.append_nil]

/-- A line that moves nothing. -/
theorem effect_of_agrees {b : Assembler} (h : (v.after library).Agrees b)
    (hip : b.ip = v.before.ip) (horigin : b.origin = v.before.origin)
    (hwidth : b.width = v.before.width) (hrecords : b.records = v.before.records) :
    Effect library v := by
  have hsame : (v.after library).ip = v.before.ip := h.ip.symm.trans hip
  refine .stays hsame ⟨h.origin.symm.trans horigin, h.width.symm.trans hwidth, hsame.ge⟩ ?_
  exact adds_nil (by rw [← h.records, hrecords])

/-- **What a line does to addresses and records.** -/
theorem effect (library : Option Library) (hs : v.before.Sound) : Effect library v := by
  rcases v.doing library with ⟨own, run⟩ | @⟨e, own, run⟩
  · have hafter : (v.after library).Agrees v.met := by
      rw [after, run]
      exact .refl v.met
    exact effect_of_agrees hafter rfl rfl rfl rfl
  · have hshows := v.shows library v.met
    have hafter := agrees_after library v
    rw [own] at hshows hafter
    have hown : e ∈ [e] := List.mem_singleton_self e
    cases e with
    | emit emission => exact effect_of_emission hs run
    | activate set => exact .reshapes (hshows.layout _ hown rfl) (adds_nil hafter.symm.records)
    | origin address => exact .reshapes (hshows.layout _ hown rfl) (adds_nil hafter.symm.records)
    | width n =>
      refine .reshapes (hshows.layout _ hown rfl) (adds_nil (hafter.symm.records.trans ?_))
      rw [replay_cons, replay_nil, apply, setWidth]
      split <;> rfl
    | align n =>
      have hasked := hshows.aligned n hown
      have hmet : v.met.codelen = v.before.codelen := rfl
      rw [replay_cons, replay_nil, apply, align] at hafter
      -- A number that is refused stops assembly and moves nothing.
      split at hafter
      · exact effect_of_agrees hafter rfl rfl rfl rfl
      · refine .aligns ?_ ⟨hafter.origin.symm, hafter.width.symm, ?_⟩ (adds_nil hafter.symm.records)
        · rw [aligns, hasked, Option.any_some, decide_eq_true_iff]
          omega
        · rw [← hafter.ip]
          exact le_roundUp v.before.ip (by omega)
    | _ => exact effect_of_agrees hafter rfl rfl rfl rfl

theorem Adds.size {records : List Record} (h : v.Adds library records) :
    (v.after library).records.size = v.before.records.size + records.length := by
  have hlength := congrArg List.length h
  simpa using hlength

theorem Adds.emits_eq {records : List Record} (h : v.Adds library records) :
    v.emits library = !records.isEmpty := by
  rw [emits, h.size]
  cases records <;> simp

/-- A line that emits notes one record and keeps the layout. -/
theorem exists_of_emits (hs : v.before.Sound) (h : v.emits library = true) :
    ∃ r, v.Notes library v.before.width r ∧ v.Steady library ∧ v.Adds library [r] := by
  cases v.effect library hs with
  | emits notes steady adds => exact ⟨_, notes, steady, adds⟩
  | reshapes _ quiet =>
    rw [quiet.emits_eq] at h
    cases h
  | aligns _ _ quiet =>
    rw [quiet.emits_eq] at h
    cases h
  | stays _ _ quiet =>
    rw [quiet.emits_eq] at h
    cases h

theorem adds_of_not_emits (hs : v.before.Sound) (h : v.emits library = false) :
    v.Adds library [] := by
  cases v.effect library hs with
  | emits _ _ adds =>
    rw [adds.emits_eq] at h
    cases h
  | reshapes _ quiet => exact quiet
  | aligns _ _ quiet => exact quiet
  | stays _ _ quiet => exact quiet

theorem steady (hs : v.before.Sound) (h : v.setsLayout = false) : v.Steady library := by
  cases v.effect library hs with
  | reshapes asked _ =>
    rw [h] at asked
    cases asked
  | aligns _ steady _ => exact steady
  | emits _ steady _ => exact steady
  | stays _ steady _ => exact steady

/-- Only lines that emit or align move the address, if the layout stays. -/
theorem ip_of_idle (hs : v.before.Sound) (hlayout : v.setsLayout = false)
    (hemits : v.emits library = false) (haligns : v.aligns = false) :
    (v.after library).ip = v.before.ip := by
  cases v.effect library hs with
  | reshapes asked _ =>
    rw [hlayout] at asked
    cases asked
  | aligns asked _ _ =>
    rw [haligns] at asked
    cases asked
  | emits _ _ adds =>
    rw [adds.emits_eq] at hemits
    cases hemits
  | stays ip _ _ => exact ip

/-- A line binds its label and the symbol that it defines, and no other. -/
theorem symbols_after (library : Option Library) (hs : v.before.Sound) :
    (v.after library).symbols = Bindings.bindAll v.before.symbols v.bindings := by
  have hsound : v.met.Sound := hs.begun v.line
  have hlabel : v.met.symbols = Bindings.bindAll v.before.symbols
      ((Statement.parse v.line).label.toList.map fun name => (name, .number v.before.ip)) := by
    rw [met, begun]
    cases (Statement.parse v.line).label <;> rfl
  rw [← (agrees_after library v).symbols, symbols_replay hsound, (v.shows library v.met).symbols,
    hlabel, bindings, Bindings.bindAll_append]

end Visit

/-! ## What a run leaves -/

/-- Whether all lines about the layout are taken before the first line that notes a record. -/
def LayoutLinesFirst (library : Option Library) (visits : List Visit) : Prop :=
  visits.Pairwise fun v w => v.emits library = true → w.setsLayout = false

instance (library : Option Library) (visits : List Visit) :
    Decidable (LayoutLinesFirst library visits) :=
  inferInstanceAs (Decidable (visits.Pairwise _))

theorem LayoutLinesFirst.behind {library : Option Library} {vs ws : List Visit} {v : Visit}
    (h : LayoutLinesFirst library (vs ++ v :: ws)) (hemits : v.emits library = true) :
    ∀ w ∈ ws, w.setsLayout = false := fun w hw =>
  (List.pairwise_cons.1 (List.pairwise_append.1 h).2.1).1 w hw hemits

namespace Assembler.Course

variable {library : Option Library} {a b : Assembler} {vs ws : List Visit} {v w : Visit}

theorem split (h : Course library a (vs ++ v :: ws) b) :
    Course library a vs v.before ∧ v.before.Sound ∧ Course library (v.after library) ws b := by
  induction vs generalizing a with
  | nil =>
    cases h with
    | take same sound later => exact ⟨.done same, sound, later⟩
  | cons u rest ih =>
    cases h with
    | take same sound later =>
      obtain ⟨hbefore, hsound, hafter⟩ := ih later
      exact ⟨.take same sound hbefore, hsound, hafter⟩

/-- Lines that are not about the layout keep it and do not move back. -/
theorem steady (h : Course library a vs b) (hlayout : ∀ v ∈ vs, v.setsLayout = false) :
    b.origin = a.origin ∧ b.width = a.width ∧ a.ip ≤ b.ip := by
  induction h with
  | done same => exact ⟨same.origin, same.width, same.ip.ge⟩
  | @take a b v rest same sound later ih =>
    obtain ⟨hhead, hrest⟩ := List.forall_mem_cons.1 hlayout
    obtain ⟨horigin, hwidth, hip⟩ := ih hrest
    have hsteady : v.Steady library := Visit.steady sound hhead
    refine ⟨?_, ?_, ?_⟩
    · rw [horigin, hsteady.origin, same.origin]
    · rw [hwidth, hsteady.width, same.width]
    · calc a.ip = v.before.ip := same.ip.symm
        _ ≤ (v.after library).ip := hsteady.ip_le
        _ ≤ b.ip := hip

/-- Lines that neither emit, align nor are about the layout leave the address alone. -/
theorem idle (h : Course library a vs b) (hlayout : ∀ v ∈ vs, v.setsLayout = false)
    (hidle : ∀ v ∈ vs, v.emits library = false ∧ v.aligns = false) : b.ip = a.ip := by
  induction h with
  | done same => exact same.ip
  | @take a b v rest same sound later ih =>
    obtain ⟨hhead, hrest⟩ := List.forall_mem_cons.1 hlayout
    obtain ⟨hv, hidle⟩ := List.forall_mem_cons.1 hidle
    rw [ih hrest hidle, Visit.ip_of_idle sound hhead hv.1 hv.2, same.ip]

theorem le_of_mem (h : Course library a vs b) (hlayout : ∀ v ∈ vs, v.setsLayout = false)
    (hw : w ∈ vs) : a.ip ≤ w.before.ip := by
  obtain ⟨front, rest, rfl⟩ := List.append_of_mem hw
  have hfront : ∀ v ∈ front, v.setsLayout = false := fun v hv =>
    hlayout v (List.mem_append_left _ hv)
  exact (h.split.1.steady hfront).2.2

/-- What a later line fills stands behind what an earlier one does. -/
theorem ascending (h : Course library a vs b) (hfirst : LayoutLinesFirst library vs) :
    vs.Pairwise fun v w => v.emits library = true → (v.after library).ip ≤ w.before.ip := by
  induction h with
  | done => exact .nil
  | take same sound later ih =>
    obtain ⟨hhead, hrest⟩ := List.pairwise_cons.1 hfirst
    refine .cons (fun w hw hemits => ?_) (ih hrest)
    exact later.le_of_mem (fun u hu => hhead u hu hemits) hw

/-- What a line fills stands between the origin and the next address. -/
theorem within (h : Course library a vs b) (hfirst : LayoutLinesFirst library vs) (hv : v ∈ vs)
    (hemits : v.emits library = true) :
    b.origin ≤ v.before.ip ∧ v.before.ip ≤ (v.after library).ip ∧ (v.after library).ip ≤ b.ip := by
  obtain ⟨front, rest, rfl⟩ := List.append_of_mem hv
  obtain ⟨-, hsound, hlater⟩ := h.split
  obtain ⟨horigin, -, hip⟩ := hlater.steady (hfirst.behind hemits)
  obtain ⟨-, -, hsteady, -⟩ := Visit.exists_of_emits hsound hemits
  refine ⟨?_, hsteady.ip_le, hip⟩
  rw [horigin, hsteady.origin]
  exact hsound.origin_le

/-- Behind a line that emits, the address stays until a line emits or aligns. -/
theorem touching {front between rest : List Visit}
    (h : Course library a (front ++ v :: (between ++ w :: rest)) b)
    (hfirst : LayoutLinesFirst library (front ++ v :: (between ++ w :: rest)))
    (hemits : v.emits library = true)
    (hidle : ∀ u ∈ between, u.emits library = false ∧ u.aligns = false) :
    w.before.ip = (v.after library).ip := by
  obtain ⟨-, -, hlater⟩ := h.split
  obtain ⟨hbetween, -, -⟩ := hlater.split
  refine hbetween.idle (fun u hu => ?_) hidle
  exact hfirst.behind hemits u (List.mem_append_left _ hu)

/-- The lines of a run note records in order. -/
theorem exists_records (h : Course library a vs b) (hfirst : LayoutLinesFirst library vs) :
    ∃ records : List Record,
      b.records.toList.map Record.bare =
        a.records.toList.map Record.bare ++ records.map Record.bare ∧
      List.Forall₂ (Visit.Notes library b.width) (vs.filter (Visit.emits library)) records := by
  induction h with
  | done same => exact ⟨[], by rw [same.records, List.map_nil, List.append_nil], .nil⟩
  | @take a b v rest same sound later ih =>
    obtain ⟨hhead, hrest⟩ := List.pairwise_cons.1 hfirst
    obtain ⟨records, hrecords, hnotes⟩ := ih hrest
    rcases hemits : v.emits library with _ | _
    · have hquiet : v.Adds library [] := Visit.adds_of_not_emits sound hemits
      refine ⟨records, ?_, ?_⟩
      · rw [hrecords, hquiet, same.records, List.map_nil, List.append_nil]
      · rwa [List.filter_cons_of_neg (by rw [hemits]; decide)]
    · obtain ⟨r, hr, hsteady, hadds⟩ := Visit.exists_of_emits sound hemits
      -- From the first record on the width stays, so words are counted as at the end.
      have hwidth : b.width = v.before.width := by
        rw [(later.steady fun w hw => hhead w hw hemits).2.1, hsteady.width]
      refine ⟨r :: records, ?_, ?_⟩
      · rw [hrecords, hadds, same.records, List.append_assoc, ← List.map_append]
        rfl
      · rw [List.filter_cons_of_pos hemits]
        exact .cons (hwidth ▸ hr) hnotes

/-- The records of a run that starts without any are those of the lines that emit, in order. -/
theorem noted (h : Course library a vs b) (hfirst : LayoutLinesFirst library vs)
    (hstart : a.records = #[]) :
    List.Forall₂ (Visit.Notes library b.width) (vs.filter (Visit.emits library))
      b.records.toList := by
  obtain ⟨records, hrecords, hnotes⟩ := h.exists_records hfirst
  rw [hstart, List.map_nil, List.nil_append] at hrecords
  have hbare : List.Forall₂ (Visit.Notes library b.width) (vs.filter (Visit.emits library))
      (records.map Record.bare) :=
    List.forall₂_map_right_iff.2 (hnotes.imp fun _ _ => Visit.notes_bare.2)
  rw [← hrecords] at hbare
  exact (List.forall₂_map_right_iff.1 hbare).imp fun _ _ => Visit.notes_bare.1

/-- The symbols of a run are those that its lines bind. -/
theorem symbols_eq (h : Course library a vs b) :
    b.symbols = Bindings.bindAll a.symbols (vs.flatMap Visit.bindings) := by
  induction h with
  | done same => exact same.symbols
  | @take a b v rest same sound later ih =>
    rw [ih, Visit.symbols_after library sound, same.symbols, List.flatMap_cons,
      Bindings.bindAll_append]

end Assembler.Course

/-! ## Lines that align -/

namespace Visit

variable {library : Option Library} {v : Visit}

/-- What can come of a line that asks to move on to a multiple of a number. -/
inductive Alignment (library : Option Library) (v : Visit) : Prop where
  /-- The number can be one: the next address is the least multiple that is not below it. -/
  | moved {n : Int} (asked : v.alignment? = some n) (possible : 1 ≤ n ∧ n ≤ v.before.codelen)
      (run : v.run library = (.ok none, { v.met with ip := (v.after library).ip }))
      (least : IsLeast {m | n ∣ m ∧ v.before.ip ≤ m} (v.after library).ip)
  | refused {n : Int} (asked : v.alignment? = some n)
      (impossible : ¬(1 ≤ n ∧ n ≤ v.before.codelen))
      (run : v.run library = (.ok none, v.met.stop .invalidAlignment none))
  | unreadable {token : String} {more : List String}
      (given : v.directive? = some (.align, token :: more)) (asked : v.alignment? = none)
      (run : v.run library = (.ok none, v.met.stop (.invalidValue ".align" token) none))
  | missing (given : v.directive? = some (.align, []))
      (run : v.run library = (.ok none, v.met.warn (.directiveExpects ".align") none))

/-- **What comes of a line that aligns.** -/
theorem alignment (library : Option Library) {args : List String}
    (h : v.directive? = some (.align, args)) : Alignment library v := by
  obtain ⟨text, hbody, hdirective, hargs⟩ := exists_of_directive? h
  have hword := Directive.word_of_align hdirective
  have hrun : v.run library = (obey library (fun _ => pure ()) text >>= fun _ => pure none).runFrom
      v.met := runFrom_assembleLine_directive hbody
  simp only [obey, hdirective, hargs] at hrun
  rw [hword] at hrun
  rcases args with _ | ⟨token, more⟩
  · exact .missing h hrun
  · have hasked : v.alignment? = (Literal.parse token).toOption := by rw [alignment?, h]
    have hnumber : v.run library = (.ok none, withNumber ".align" token align v.met) := hrun
    rw [withNumber] at hnumber
    rcases hparse : Literal.parse token with fault | n
    · rw [hparse] at hasked hnumber
      exact .unreadable h hasked hnumber
    · rw [hparse] at hasked hnumber
      simp only [align] at hnumber
      split at hnumber
      · rename_i hrange
        refine .refused hasked (fun hpossible => ?_) hnumber
        have hcodelen : v.met.codelen = v.before.codelen := rfl
        omega
      · rename_i hrange
        have hcodelen : v.met.codelen = v.before.codelen := rfl
        have hip : (v.after library).ip = -(-v.before.ip / n) * n := by
          rw [after, hnumber]
          rfl
        refine .moved hasked (by omega) ?_ ?_
        · rw [hnumber, hip]
          rfl
        · rw [hip]
          exact isLeast_roundUp v.before.ip (by omega)

end Visit

/-! ## Tilings -/

/-- How the lines of a run, and the records that are left of them, lie in the address space. -/
structure Tiling (library : Option Library) (visits : List Visit) (b : Assembler) : Prop where
  /-- The records are those of the lines that emit, in order. -/
  noted : List.Forall₂ (Visit.Notes library b.width) (visits.filter (Visit.emits library))
    b.records.toList
  /-- What a later line fills stands behind what an earlier one fills. -/
  ascending : (visits.filter (Visit.emits library)).Pairwise fun v w =>
    (v.after library).ip ≤ w.before.ip
  within : ∀ v ∈ visits, v.emits library = true →
    b.origin ≤ v.before.ip ∧ v.before.ip ≤ (v.after library).ip ∧ (v.after library).ip ≤ b.ip
  /-- Only a line that aligns leaves addresses free. -/
  touching : ∀ front v between w rest, visits = front ++ v :: (between ++ w :: rest) →
    v.emits library = true → (∀ u ∈ between, u.emits library = false ∧ u.aligns = false) →
    w.before.ip = (v.after library).ip
  /-- If no line fails, all this holds of the records and their words. -/
  whole : (∀ v ∈ visits, v.emits library = true → ∃ record, (v.run library).1 = .ok record) →
    b.records.toList.Pairwise (fun r s => ∃ stop, r.EndsAt b.width stop ∧ stop ≤ s.offset) ∧
    ∀ r ∈ b.records.toList, ∃ stop, r.EndsAt b.width stop ∧
      b.origin ≤ r.offset ∧ r.offset ≤ stop ∧ stop ≤ b.ip
  /-- A label is bound to the address at which its line is taken; the last binding of a name
  counts. -/
  labels : ∀ name, Bindings.find? b.symbols name =
    (visits.flatMap Visit.bindings).reverse.lookup name
  aligned : ∀ v ∈ visits, ∀ args, v.directive? = some (.align, args) → v.Alignment library

namespace Visit

variable {library : Option Library} {width : Int} {v : Visit}

/-- The record of a line that does not fail ends where the line does. -/
theorem Notes.endsAt {r : Record} (h : v.Notes library width r)
    (hok : ∃ record, (v.run library).1 = .ok record) : r.EndsAt width (v.after library).ip := by
  obtain ⟨stop, hends, ⟨-, rfl⟩ | ⟨why, stored, herror, -⟩⟩ := h.filled
  · exact hends
  · obtain ⟨record, hrecord⟩ := hok
    rw [hrecord] at herror
    cases herror

end Visit

section Whole

variable {library : Option Library} {visits : List Visit} {records : List Record} {width : Int}

/-- If no line fails, records start and end where their lines do. -/
theorem spans_eq (h : List.Forall₂ (Visit.Notes library width) visits records)
    (hok : ∀ v ∈ visits, ∃ record, (v.run library).1 = .ok record) :
    records.map (fun r => (r.offset, wordCount r.nbits width)) =
      visits.map fun v => (v.before.ip, .ok ((v.after library).ip - v.before.ip)) := by
  induction h with
  | nil => rfl
  | cons hnotes _ ih =>
    obtain ⟨hv, hrest⟩ := List.forall_mem_cons.1 hok
    have hends := hnotes.endsAt hv
    rw [Record.EndsAt, hnotes.offset] at hends
    rw [List.map_cons, List.map_cons, ih hrest, hends, hnotes.offset]

theorem pairwise_of_spans (h : List.Forall₂ (Visit.Notes library width) visits records)
    (hok : ∀ v ∈ visits, ∃ record, (v.run library).1 = .ok record)
    (hascending : visits.Pairwise fun v w => (v.after library).ip ≤ w.before.ip) :
    records.Pairwise fun r s => ∃ stop, r.EndsAt width stop ∧ stop ≤ s.offset := by
  have hspans : (visits.map fun v => (v.before.ip,
      (.ok ((v.after library).ip - v.before.ip) : Except Fault Int))).Pairwise
      fun p q => ∃ stop, p.2 = .ok (stop - p.1) ∧ stop ≤ q.1 :=
    List.pairwise_map.2 (hascending.imp fun hle => ⟨_, rfl, hle⟩)
  rw [← spans_eq h hok] at hspans
  exact List.pairwise_map.1 hspans

theorem exists_span (h : List.Forall₂ (Visit.Notes library width) visits records)
    (hok : ∀ v ∈ visits, ∃ record, (v.run library).1 = .ok record) {r : Record} (hr : r ∈ records) :
    ∃ v ∈ visits, r.offset = v.before.ip ∧ r.EndsAt width (v.after library).ip := by
  have hmem := List.mem_map_of_mem (f := fun r : Record => (r.offset, wordCount r.nbits width)) hr
  rw [spans_eq h hok] at hmem
  obtain ⟨v, hv, hspan⟩ := List.mem_map.1 hmem
  obtain ⟨hoffset, hends⟩ := Prod.mk.inj hspan
  refine ⟨v, hv, hoffset.symm, ?_⟩
  rw [Record.EndsAt, ← hends, hoffset]

end Whole

namespace Assembler

/-- **Emitted lines do not overlap.**  Whatever calls are made of an assembler that has read
nothing, if the lines about the layout come before the first record, then the lines that emit fill
ranges of addresses one behind the other, from the origin to the next address.  Each starts where
the one before it ends, unless a line between them aligns. -/
theorem tiling_afterCalls (library : Option Library) (active : Option InstructionSet)
    (calls : List Call) (h : LayoutLinesFirst library (visits library calls (fresh active))) :
    Tiling library (visits library calls (fresh active))
      (afterCalls library calls (fresh active)) := by
  have hcourse : Course library (fresh active) (visits library calls (fresh active))
      (afterCalls library calls (fresh active)) := course_afterCalls (wellFormed_fresh active) calls
  have hrecords : (fresh active).records = #[] := by cases active <;> rfl
  have hsymbols : (fresh active).symbols = [] := by cases active <;> rfl
  -- All that counts of the calls is the course of their lines.
  generalize visits library calls (fresh active) = visits at h hcourse ⊢
  generalize afterCalls library calls (fresh active) = b at hcourse ⊢
  have hnoted := hcourse.noted h hrecords
  have hascending : (visits.filter (Visit.emits library)).Pairwise fun v w =>
      (v.after library).ip ≤ w.before.ip :=
    List.pairwise_filter.2 ((hcourse.ascending h).imp fun hle hemits _ => hle hemits)
  refine ⟨hnoted, hascending, fun v hv => hcourse.within h hv, ?_, ?_, ?_, ?_⟩
  · rintro front v between w rest rfl hemits hidle
    exact hcourse.touching h hemits hidle
  · intro hall
    have hok : ∀ v ∈ visits.filter (Visit.emits library), ∃ record,
        (v.run library).1 = .ok record := fun v hv =>
      hall v (List.mem_filter.1 hv).1 (List.mem_filter.1 hv).2
    refine ⟨pairwise_of_spans hnoted hok hascending, fun r hr => ?_⟩
    obtain ⟨v, hv, hoffset, hends⟩ := exists_span hnoted hok hr
    obtain ⟨hmem, hemits⟩ := List.mem_filter.1 hv
    exact ⟨_, hends, hoffset ▸ hcourse.within h hmem hemits⟩
  · intro name
    rw [hcourse.symbols_eq, Bindings.find?_bindAll, hsymbols, Bindings.find?, Option.or_none]
  · exact fun v _ args hdirective => Visit.alignment library hdirective

end Assembler

end

namespace Assembler

/-- A source with a label, a gap and two lines that emit. -/
def tableLibrary : Library :=
  .ofDocuments [] [("table", "row: .data 7 row\n.align 3\n.string \"hi\"")] []

/-- Calls that take lines below zero, include a source, are finished in between and end at a number
to a multiple of which the address cannot move on. -/
def tableCalls : List Call :=
  [.lines [".org -5", ".len 16", "start: br NZ, start"], .line ".align 4", .finish,
    .line ".include table", .assemble "done: .data done 2\n.align 17\n.data 3"]

open UsualMachine in
theorem tiling_afterCalls_table :
    let active := (InstructionSet.ofDocument "branching" branching).toOption
    let taken := visits (some tableLibrary) tableCalls (fresh active)
    LayoutLinesFirst (some tableLibrary) taken ∧
      (taken.filter (Visit.emits (some tableLibrary))).map (fun v =>
        (v.before.ip, (v.after (some tableLibrary)).ip)) = [(-5, -2), (0, 2), (3, 5), (5, 7)] ∧
      Tiling (some tableLibrary) taken
        (afterCalls (some tableLibrary) tableCalls (fresh active)) := by
  intro active taken
  have hfacts : LayoutLinesFirst (some tableLibrary)
        (visits (some tableLibrary) tableCalls (fresh active)) ∧
      (taken.filter (Visit.emits (some tableLibrary))).map (fun v =>
        (v.before.ip, (v.after (some tableLibrary)).ip)) = [(-5, -2), (0, 2), (3, 5), (5, 7)] := by
    decide +kernel
  obtain ⟨hlayout, hspans⟩ := hfacts
  exact ⟨hlayout, hspans, tiling_afterCalls (some tableLibrary) active tableCalls hlayout⟩

/-- Lines that share an address: the words of the first cannot be held, so that the second is taken
at the same address. -/
def overwideCalls : List Call :=
  [.line ".width 99999999999999999999", .line ".data 1", .line ".data 2"]

open UsualMachine in
/-- Records overlap where words cannot be held, and an alignment without a number does not stop
assembly. -/
theorem not_disjoint_overwide :
    LayoutLinesFirst none (visits none overwideCalls (fresh none)) ∧
      ((afterCalls none overwideCalls (fresh none)).records.toList.map fun r =>
        (r.offset,
          (wordCount r.nbits (afterCalls none overwideCalls (fresh none)).width).toOption)) =
          [(0, some 1), (0, some 1)] ∧
      (afterCalls none overwideCalls (fresh none)).ip = 0 ∧
      (afterCalls none [.line ".align"] (fresh none)).aborted = false := by
  decide +kernel

end Assembler

end Retarget
