import Retarget.Assembler.Program
import Retarget.Proofs.Packing

/-!
# The trace of a program

A program does a handful of things to the assembler: it counts a line, binds a symbol, tells a
notice, stops, changes the instruction set, the origin, the width or the declared length, moves the
address on, or emits words.  `Event` names them, and `Assembler.apply` is the change of state that
each one makes.

The trace of a program is the list of its events in order, with the events of included sources in
the place of the lines that name them.  The main result is `assembleLines_eq_replay`: running the
lines of a program is applying the events of its trace one after the other.  Whatever every event
keeps is thereby kept by every run, however deep its sources are nested.
-/

namespace Retarget

/-! ## Running attempts -/

namespace Attempt

variable {σ τ α β : Type}

@[simp] theorem runFrom_pure (x : α) (s : σ) : (pure x : Attempt σ α).runFrom s = (.ok x, s) := rfl

@[simp] theorem runFrom_get (s : σ) : (get : Attempt σ σ).runFrom s = (.ok s, s) := rfl

@[simp] theorem runFrom_set (t s : σ) : (set t : Attempt σ PUnit).runFrom s = (.ok ⟨⟩, t) := rfl

@[simp] theorem runFrom_modify (f : σ → σ) (s : σ) :
    (modify f : Attempt σ PUnit).runFrom s = (.ok ⟨⟩, f s) := rfl

@[simp] theorem runFrom_throw (fault : Fault) (s : σ) :
    (throw fault : Attempt σ α).runFrom s = (.error fault, s) := rfl

@[simp] theorem runFrom_ofExcept (result : Except Fault α) (s : σ) :
    (ofExcept result : Attempt σ α).runFrom s = (result, s) := rfl

@[simp] theorem runFrom_on (part : σ → τ) (update : τ → σ → σ) (x : Attempt τ α) (s : σ) :
    (on part update x).runFrom s =
      ((x.runFrom (part s)).1, update (x.runFrom (part s)).2 s) := rfl

/-- An attempt that succeeds hands its result and its state to the next one. -/
theorem runFrom_bind_ok {x : Attempt σ α} {s t : σ} {v : α} (h : x.runFrom s = (.ok v, t))
    (f : α → Attempt σ β) : (x >>= f).runFrom s = (f v).runFrom t := by
  show (ExceptT.bindCont f (x s).1) (x s).2 = _
  rw [show x s = (.ok v, t) from h]
  rfl

/-- An attempt that fails ends the whole. -/
theorem runFrom_bind_error {x : Attempt σ α} {s t : σ} {fault : Fault}
    (h : x.runFrom s = (.error fault, t)) (f : α → Attempt σ β) :
    (x >>= f).runFrom s = (.error fault, t) := by
  show (ExceptT.bindCont f (x s).1) (x s).2 = _
  rw [show x s = (.error fault, t) from h]
  rfl

/-- An attempt in two parts succeeds if both of them do. -/
theorem runFrom_bind_eq_ok {x : Attempt σ α} {f : α → Attempt σ β} {s u : σ} {v : β} :
    (x >>= f).runFrom s = (.ok v, u) ↔
      ∃ w t, x.runFrom s = (.ok w, t) ∧ (f w).runFrom t = (.ok v, u) := by
  rcases h : x.runFrom s with ⟨fault | w, t⟩
  · rw [runFrom_bind_error h]
    exact ⟨nofun, nofun⟩
  · rw [runFrom_bind_ok h]
    constructor
    · intro hf
      exact ⟨w, t, rfl, hf⟩
    · rintro ⟨w', t', ⟨⟩, hf⟩
      exact hf

end Attempt

namespace Assembler

open Attempt

/-! ## Guarded attempts -/

section Guarded

variable {α β : Type} {a : Assembler}

/-- An attempt that succeeds is told nothing of. -/
theorem guarded_of_ok {x : Attempt Assembler α} {b : Assembler} {v : α}
    (h : x.runFrom a = (.ok v, b)) : guarded x a = b := by
  rw [guarded, h]

/-- An attempt that fails stops assembly, and its fault is told. -/
theorem guarded_of_error {x : Attempt Assembler α} {b : Assembler} {fault : Fault}
    (h : x.runFrom a = (.error fault, b)) : guarded x a = b.stop (.failure fault) none := by
  rw [guarded, h]

@[simp] theorem guarded_pure (v : α) : guarded (pure v) a = a := rfl

@[simp] theorem guarded_modify (f : Assembler → Assembler) : guarded (modify f) a = f a := rfl

@[simp] theorem guarded_throw (fault : Fault) :
    guarded (throw fault : Attempt Assembler α) a = a.stop (.failure fault) none := rfl

/-- A guarded attempt only depends on the first part as far as it succeeds. -/
theorem guarded_bind_of_ok {x : Attempt Assembler α} {b : Assembler} {v : α}
    (h : x.runFrom a = (.ok v, b)) (f : α → Attempt Assembler β) :
    guarded (x >>= f) a = guarded (f v) b := by
  rw [guarded, runFrom_bind_ok h, guarded]

/-- Nothing happens behind a failure. -/
theorem guarded_bind_of_error {x : Attempt Assembler α} {b : Assembler} {fault : Fault}
    (h : x.runFrom a = (.error fault, b)) (f : α → Attempt Assembler β) :
    guarded (x >>= f) a = b.stop (.failure fault) none := by
  rw [guarded, runFrom_bind_error h]

@[simp] theorem guarded_modify_bind (f : Assembler → Assembler) (g : PUnit → Attempt Assembler β) :
    guarded (modify f >>= g) a = guarded (g ⟨⟩) (f a) :=
  guarded_bind_of_ok rfl g

@[simp] theorem guarded_get_bind (g : Assembler → Attempt Assembler β) :
    guarded (get >>= g) a = guarded (g a) a :=
  guarded_bind_of_ok rfl g

@[simp] theorem guarded_set_bind (b : Assembler) (g : PUnit → Attempt Assembler β) :
    guarded (set b >>= g) a = guarded (g ⟨⟩) b :=
  guarded_bind_of_ok rfl g

@[simp] theorem guarded_ofExcept_ok_bind (v : α) (g : α → Attempt Assembler β) :
    guarded (Attempt.ofExcept (.ok v) >>= g) a = guarded (g v) a :=
  guarded_bind_of_ok rfl g

@[simp] theorem guarded_ofExcept_error_bind (fault : Fault) (g : α → Attempt Assembler β) :
    guarded (Attempt.ofExcept (.error fault) >>= g) a = a.stop (.failure fault) none :=
  guarded_bind_of_error rfl g

/-- The result of a guarded attempt does not count. -/
theorem guarded_bind_pure (x : Attempt Assembler α) (f : α → β) :
    guarded (x >>= fun v => pure (f v)) a = guarded x a := by
  rcases h : x.runFrom a with ⟨r, b⟩
  cases r with
  | ok v => rw [guarded_bind_of_ok h, guarded_of_ok h, guarded_pure]
  | error fault => rw [guarded_bind_of_error h, guarded_of_error h]

end Guarded

end Assembler

/-! ## Emissions and events -/

variable [Machine]

/-- What a rule makes of a line: the operands that its format finds there, and the fields that its
layout gives to them. -/
structure Encoding where
  arch : Arch
  rule : Rule
  text : String
  operands : List String
  fields : List Field
  captured : rule.captures text = some operands
  found : Instruction.fieldsAfter arch operands 0 rule.layout =
    .ok (fields, Instruction.pack fields)

/-- The fields of an encoding are those of the entries of the layout. -/
theorem Encoding.built (e : Encoding) :
    e.rule.layout.mapM (Field.ofEntry e.arch e.operands) = .ok e.fields :=
  (Instruction.fieldsAfter_eq_ok.1 e.found).1

/-- What a line emits. -/
inductive Emission where
  /-- The instruction that a rule makes of the line. -/
  | code (encoding : Encoding)
  /-- One word for each token. -/
  | data (tokens : List String)
  /-- One word for each character. -/
  | text (characters : List Char)

/-- One thing that a program does to the assembler. -/
inductive Event where
  /-- A line is read. -/
  | count
  | bind (name : String) (value : SymbolValue)
  | tell (notice : Notice)
  | halt (notice : Notice)
  | activate (set : InstructionSet)
  | origin (address : Int)
  | length (n : Int)
  | width (n : Int)
  | align (n : Int)
  | emit (emission : Emission)

namespace Assembler

/-- Emits what a line emits. -/
def perform : Emission → Attempt Assembler Unit
  | .code encoding => do
    let a ← get
    let _ ← emitInstruction (Instruction.ofFields a.ip a.line encoding.fields)
  | .data tokens => obeyData tokens
  | .text characters => do
    let _ ← emitWords (characters.map fun c => (c.toNat : Int))

/-- The change of state that an event makes. -/
def apply (a : Assembler) : Event → Assembler
  | .count => { a with line := a.line + 1 }
  | .bind name value => a.bindSymbol name value
  | .tell notice => a.warn notice none
  | .halt notice => a.stop notice none
  | .activate set => a.activate set
  | .origin address => a.setOrigin address
  | .length n => { a with codelen := n }
  | .width n => a.setWidth n
  | .align n => a.align n
  | .emit emission => guarded (perform emission) a

/-- Applies events in order. -/
def replay (events : List Event) (a : Assembler) : Assembler :=
  events.foldl apply a

@[simp] theorem replay_nil (a : Assembler) : replay [] a = a := rfl

@[simp] theorem replay_cons (e : Event) (events : List Event) (a : Assembler) :
    replay (e :: events) a = replay events (a.apply e) := rfl

@[simp] theorem replay_append (before after : List Event) (a : Assembler) :
    replay (before ++ after) a = replay after (replay before a) := by
  rw [replay, List.foldl_append, ← replay, ← replay]

/-! ## The events of a line -/

/-- What a rule makes of a line, if it matches the line. -/
def encode (arch : Arch) (rule : Rule) (text : String) : Option (Except Fault Encoding) :=
  match hc : rule.captures text with
  | none => none
  | some operands =>
    match hb : Instruction.fieldsAfter arch operands 0 rule.layout with
    | .ok found =>
      some (.ok ⟨arch, rule, text, operands, found.1, hc, Instruction.pack_of_fieldsAfter hb⟩)
    | .error fault => some (.error fault)

/-- Tries rules on a line in order, until one matches and accepts the operands; if none does, the
last rejection is kept. -/
def pick (arch : Arch) (text : String) :
    (last : Option Rejection) → List Rule → Except Fault (Option Rejection ⊕ Encoding)
  | last, [] => .ok (.inl last)
  | last, rule :: rest =>
    match encode arch rule text with
    | none => pick arch text last rest
    | some (.ok encoding) => .ok (.inr encoding)
    | some (.error (.rejected rejection)) => pick arch text (some rejection) rest
    | some (.error fault) => .error fault

/-- The events of an instruction in lower case. -/
def instructionEvents (a : Assembler) (text : String) : List Event :=
  match a.active with
  | none => [.halt .noArchitecture]
  | some set =>
    match pick set.arch text none set.rules with
    | .ok (.inr encoding) => [.emit (.code encoding)]
    | .ok (.inl last) => [.tell (last.elim (.undecoded text) .rejected)]
    | .error fault => [.halt (.failure fault)]

/-- The events of loading an architecture. -/
def archEvents (library : Option Library) (name : String) : List Event :=
  match library with
  | none => [.halt (.noLibrary "arch" name)]
  | some lib =>
    match lib.arch name with
    | .error (.load error) => [.halt (.notLoaded error)]
    | .error (.arch error) => [.halt (.archRefused error)]
    | .error fault => [.halt (.failure fault)]
    | .ok data =>
      match InstructionSet.ofDocument name data with
      | .ok set => [.activate set]
      | .error (.arch error) => [.halt (.archRefused error)]
      | .error fault => [.halt (.failure fault)]

/-- The events of a source from the library, of which `nested` gives the events of its lines. -/
def sourceEvents (library : Option Library) (nested : List String → Assembler → List Event)
    (kind : SourceKind) (name : String) (a : Assembler) : List Event :=
  match library with
  | none => [.halt (.noLibrary kind.word name)]
  | some lib =>
    match lib.source kind name with
    | .error (.load error) => [.halt (.notLoaded error)]
    | .error fault => [.halt (.failure fault)]
    | .ok text => nested (Text.lines text) a

/-- The event of a directive with the number that its first argument spells. -/
def numberEvents (word token : String) (event : Int → Event) : List Event :=
  match Literal.parse token with
  | .ok value => [event value]
  | .error _ => [.halt (.invalidValue word token)]

/-- The events of a directive. -/
def directiveEvents (library : Option Library) (nested : List String → Assembler → List Event)
    (a : Assembler) (text : String) : List Event :=
  let command := Command.parse text
  let word := Text.lower command.word
  match Directive.ofWord? word, command.args with
  | none, _ => [.tell (.unrecognizedDirective command.word)]
  | some .string, _ => [.emit (.text (Command.unquote command.rest.toList))]
  | some .data, args => [.emit (.data args)]
  | some .define, name :: value :: _ => [.bind (Text.lower name) (.text value)]
  | some .define, _ => [.tell .defineExpects]
  | some _, [] => [.tell (.directiveExpects word)]
  | some .arch, name :: _ => archEvents library name
  | some (.source kind), name :: _ => sourceEvents library nested kind name a
  | some .org, token :: _ => numberEvents word token .origin
  | some .len, token :: _ => numberEvents word token .length
  | some .width, token :: _ => numberEvents word token .width
  | some .align, token :: _ => numberEvents word token .align

/-- The events of the rest of a line behind its label. -/
def bodyEvents (library : Option Library) (nested : List String → Assembler → List Event)
    (a : Assembler) : Body → List Event
  | .nothing => []
  | .directive text => directiveEvents library nested a text
  | .instruction text => instructionEvents a text

/-- The events of the front of a line: it is counted, and its label is bound to the address. -/
def headEvents (a : Assembler) (statement : Statement) : List Event :=
  .count :: (statement.label.toList.map fun name => .bind name (.number a.ip))

/-- The events of a line. -/
def lineEvents (library : Option Library) (nested : List String → Assembler → List Event)
    (line : String) (a : Assembler) : List Event :=
  let statement := Statement.parse line
  let front := headEvents a statement
  front ++ bodyEvents library nested (replay front a) statement.body

/-! ## The events of a program -/

/-- The events of lines, each given by `events`, until assembly has stopped. -/
def traceLines (events : String → Assembler → List Event) : List String → Assembler → List Event
  | [], _ => []
  | line :: rest, a =>
    if a.aborted then []
    else events line a ++ traceLines events rest (replay (events line a) a)

/-- The events of an included source, in which sources may be included `depth` deep. -/
def traceNested (library : Option Library) : (depth : Nat) → List String → Assembler → List Event
  | 0, _, _ => [.halt (.failure .nesting)]
  | depth + 1, lines, a => traceLines (lineEvents library (traceNested library depth)) lines a

/-- The events of the lines of a program. -/
def trace (library : Option Library) (lines : List String) (a : Assembler) : List Event :=
  traceLines (lineEvents library (traceNested library Machine.nesting)) lines a

/-! ## Lines are replayed -/

/-- Building the instruction of a rule is encoding the line and placing the fields. -/
theorem encode_eq_build (arch : Arch) (rule : Rule) (text : String) (address line : Int) :
    (rule.captures text).map (Instruction.build arch rule · address line) =
      (encode arch rule text).map
        (Except.map fun e => Instruction.ofFields address line e.fields) := by
  rw [encode]
  split
  · rename_i hc
    rw [hc]; rfl
  · rename_i operands hc
    have hbuild : (rule.captures text).map (Instruction.build arch rule · address line) =
        some (Instruction.build arch rule operands address line) := by rw [hc]; rfl
    rw [hbuild, Instruction.build_eq]
    split
    · rename_i found hb
      exact congrArg (fun result => some (Except.map _ result)) hb
    · rename_i fault hb
      exact congrArg (fun result => some (Except.map _ result)) hb

/-- An instruction knows the rule that it was made by. -/
theorem encode_rule {arch : Arch} {rule : Rule} {text : String} {encoding : Encoding}
    (h : encode arch rule text = some (.ok encoding)) : encoding.rule = rule := by
  rw [encode] at h
  split at h
  · cases h
  · split at h
    · cases h; rfl
    · cases h

/-- Choosing a rule and building its instruction is picking a rule and placing its fields. -/
theorem choose_eq_pick (arch : Arch) (address line : Int) (text : String) (last : Option Rejection)
    (rules : List Rule) :
    choose arch address line text last rules = (pick arch text last rules).map fun
      | .inl last => .none last
      | .inr encoding =>
        .built encoding.rule (Instruction.ofFields address line encoding.fields) := by
  induction rules generalizing last with
  | nil => rfl
  | cons rule rest ih =>
    have key := encode_eq_build arch rule text address line
    rw [choose, pick]
    rcases he : encode arch rule text with _ | r
    · rw [he, Option.map_none, Option.map_eq_none_iff] at key
      rw [key]
      exact ih last
    · rw [he, Option.map_some, Option.map_eq_some_iff] at key
      obtain ⟨operands, hc, hb⟩ := key
      rw [hc]
      simp only [hb]
      rcases r with fault | encoding
      · -- Only a rejection lets the next rule have a try; any other fault ends the line.
        cases fault with
        | rejected rejection => exact ih (some rejection)
        | _ => rfl
      · rw [← encode_rule he]
        rfl

/-- An instruction does what its events do. -/
theorem guarded_assembleInstruction (text : String) (a : Assembler) :
    guarded (assembleInstruction text) a = replay (instructionEvents a text) a := by
  rw [assembleInstruction, guarded_get_bind, instructionEvents]
  rcases a.active with _ | set
  · rfl
  · simp only [choose_eq_pick]
    rcases hp : pick set.arch text none set.rules with fault | choice
    · rfl
    · rcases choice with last | encoding
      · rfl
      · simp only [Except.map, guarded_ofExcept_ok_bind, replay_cons, replay_nil, apply, perform,
          guarded_get_bind, guarded_bind_pure]

/-- Loading an architecture does what its events do. -/
theorem guarded_loadArch (library : Option Library) (name : String) (a : Assembler) :
    guarded (loadArch library name) a = replay (archEvents library name) a := by
  rcases library with _ | lib
  · rfl
  · simp only [loadArch, archEvents]
    rcases lib.arch name with fault | data
    · cases fault <;> rfl
    · simp only
      rcases InstructionSet.ofDocument name data with fault | set
      · cases fault <;> rfl
      · rfl

section Nested

variable {library : Option Library} {nested : List String → Attempt Assembler Unit}
  {events : List String → Assembler → List Event}
  (hn : ∀ lines a, guarded (nested lines) a = replay (events lines a) a)

include hn

/-- A source does what its events do. -/
theorem guarded_loadSource (kind : SourceKind) (name : String) (a : Assembler) :
    guarded (loadSource library nested kind name) a =
      replay (sourceEvents library events kind name a) a := by
  rcases library with _ | lib
  · rfl
  · simp only [loadSource, sourceEvents]
    rcases lib.source kind name with fault | text
    · cases fault <;> rfl
    · exact hn _ a

omit hn in
/-- A directive with a number does what its events do. -/
theorem guarded_withNumber (word token : String) (act : Int → Assembler → Assembler)
    (event : Int → Event) (h : ∀ n a, apply a (event n) = act n a) (a : Assembler) :
    guarded (modify (withNumber word token act)) a = replay (numberEvents word token event) a := by
  rw [guarded_modify, withNumber, numberEvents]
  rcases Literal.parse token with fault | value
  · rfl
  · exact (h value a).symm

/-- A directive does what its events do. -/
theorem guarded_obey (text : String) (a : Assembler) :
    guarded (obey library nested text) a = replay (directiveEvents library events a text) a := by
  rw [obey, directiveEvents]
  generalize Command.parse text = command
  generalize Text.lower command.word = word
  rcases Directive.ofWord? word with _ | directive
  · rfl
  · cases directive with
    | string => rfl
    | data => rfl
    | define =>
      rcases command.args with _ | ⟨name, _ | ⟨value, more⟩⟩ <;> rfl
    | arch =>
      rcases command.args with _ | ⟨name, more⟩
      · rfl
      · exact guarded_loadArch library name a
    | source kind =>
      rcases command.args with _ | ⟨name, more⟩
      · rfl
      · exact guarded_loadSource hn kind name a
    | org =>
      rcases command.args with _ | ⟨token, more⟩
      · rfl
      · exact guarded_withNumber word token setOrigin .origin (fun _ _ => rfl) a
    | len =>
      rcases command.args with _ | ⟨token, more⟩
      · rfl
      · exact guarded_withNumber word token _ .length (fun _ _ => rfl) a
    | width =>
      rcases command.args with _ | ⟨token, more⟩
      · rfl
      · exact guarded_withNumber word token setWidth .width (fun _ _ => rfl) a
    | align =>
      rcases command.args with _ | ⟨token, more⟩
      · rfl
      · exact guarded_withNumber word token align .align (fun _ _ => rfl) a

/-- **A line does what its events do**, if the sources that it names do. -/
theorem guarded_assembleLine (line : String) (a : Assembler) :
    guarded (assembleLine library nested line) a =
      replay (lineEvents library events line a) a := by
  rw [assembleLine, guarded_modify_bind, lineEvents, replay_append]
  simp only
  generalize Statement.parse line = statement
  obtain ⟨label, body⟩ := statement
  -- The body meets the assembler that the front of the line leaves, so it is taken for any.
  have hbody : ∀ b, guarded (match body with
      | .nothing => pure none
      | .directive text => do obey library nested text; pure none
      | .instruction text => assembleInstruction text) b =
        replay (bodyEvents library events b body) b := by
    intro b
    cases body with
    | nothing => rfl
    | directive text =>
      exact (guarded_bind_pure (obey library nested text) fun _ => none).trans
        (guarded_obey hn text b)
    | instruction text => exact guarded_assembleInstruction text b
  cases label with
  | none => exact hbody _
  | some name => exact hbody _

/-- Lines in order do what their events do. -/
theorem takeLines_eq_replay (lines : List String) (a : Assembler) :
    takeLines (assembleLine library nested) lines a =
      replay (traceLines (lineEvents library events) lines a) a := by
  induction lines generalizing a with
  | nil => rfl
  | cons line rest ih =>
    rw [takeLines, traceLines]
    split
    · rfl
    · rw [replay_append, ih, guarded_assembleLine hn]

end Nested

/-- An included source does what its events do. -/
theorem guarded_assembleNested (library : Option Library) (depth : Nat) (lines : List String)
    (a : Assembler) :
    guarded (assembleNested library depth lines) a =
      replay (traceNested library depth lines a) a := by
  induction depth generalizing lines a with
  | zero => rfl
  | succ depth ih => exact takeLines_eq_replay ih lines a

/-- **A program does what its events do.** -/
theorem assembleLines_eq_replay (library : Option Library) (lines : List String) (a : Assembler) :
    assembleLines library lines a = replay (trace library lines a) a :=
  takeLines_eq_replay (guarded_assembleNested library Machine.nesting) lines a

end Assembler

end Retarget
