import Retarget.Proofs.InStep
import Retarget.Proofs.Slips
import Retarget.Proofs.Stopping

/-!
# Extended instruction sets

An instruction set is extended by rules behind its own and by variables of other names.  Its own
rules are compiled as before, because a format only sees the variables that it names, and they are
tried first.  So a line that one of them accepts is assembled as before (`pick_extended`), and one
that they all refuse is the only one to see what is new.

A program without refused lines thus runs in step with itself under the extended set
(`inStep_widened`), and finishing does not look at instruction sets at all.  In the end the two
runs differ in nothing but the set itself.
-/

namespace Retarget

/-- A traversal that succeeds does so with all that succeeds in the same way. -/
theorem mapM_mono {α β ε : Type} {f g : α → Except ε β} {xs : List α}
    (h : ∀ x y, f x = .ok y → g x = .ok y) {ys : List β} (hf : xs.mapM f = .ok ys) :
    xs.mapM g = .ok ys := by
  induction xs generalizing ys with
  | nil => exact hf
  | cons x rest ih =>
    obtain ⟨y, more, hx, hrest, rfl⟩ := mapM_cons_eq_ok hf
    rw [List.mapM_cons, h x y hx, ih hrest]
    rfl

/-! ## Extensions -/

/-- Variables behind the others do not hide them. -/
theorem Arch.find?_of_prefix {arch wide : Arch} (h : arch.vars <+: wide.vars) {name : String}
    {v : Variable} (hv : arch.find? name = some v) : wide.find? name = some v := by
  obtain ⟨more, hmore⟩ := h
  unfold find? at hv ⊢
  rw [← hmore, List.find?_append, hv, Option.some_or]

namespace InstructionSet

/-- Whether an instruction set is another one with more rules behind its own and more variables. -/
structure Extends (wide set : InstructionSet) : Prop where
  width : wide.arch.width = set.arch.width
  vars : ∀ name v, set.arch.find? name = some v → wide.arch.find? name = some v
  rules : set.arch.rules <+: wide.arch.rules

theorem Extends.refl (set : InstructionSet) : set.Extends set :=
  ⟨rfl, fun _ _ => id, List.prefix_rfl⟩

end InstructionSet

namespace Format

/-- The segments of a format depend on the kinds of its own slots only. -/
theorem segments_congr {kind kind' : String → Operand} {ps : List Piece}
    (h : ∀ name ∈ slotNames ps, kind' name = kind name) : segments kind' ps = segments kind ps := by
  induction ps with
  | nil => rfl
  | cons p rest ih =>
    cases p with
    | char c =>
      unfold segments
      rw [ih h]
    | slot name =>
      obtain ⟨hname, hrest⟩ := List.forall_mem_cons.1 (show ∀ n ∈ name :: slotNames rest, _ from h)
      unfold segments
      rw [hname, ih hrest]

end Format

/-- A rule is compiled in the same way where more names are known. -/
theorem Rule.compile_mono {scope scope' : String → Option Definition}
    (hscope : ∀ name v, scope name = some (.known v) → scope' name = some (.known v))
    {source : RuleSource} {rule : Rule} (h : compile scope source = .ok rule) :
    compile scope' source = .ok rule := by
  obtain ⟨hknown, layout, hlayout, rfl⟩ := compile_iff.1 h
  refine compile_iff.2 ⟨?_, layout, hlayout, ?_⟩
  · intro name hname
    obtain ⟨v, hv⟩ := hknown name hname
    exact ⟨v, hscope name v hv⟩
  · have hsegments : Format.segments (kindAt scope') (Format.pieces source.format.toList) =
        Format.segments (kindAt scope) (Format.pieces source.format.toList) := by
      refine Format.segments_congr ?_
      intro name hname
      obtain ⟨v, hv⟩ := hknown name hname
      rw [kindAt, kindAt, hv, hscope name v hv]
    rw [hsegments]

namespace InstructionSet

variable {wide set : InstructionSet}

theorem Extends.scope (h : wide.Extends set) {name : String} {v : Variable}
    (hv : set.arch.scope name = some (.known v)) : wide.arch.scope name = some (.known v) := by
  unfold Arch.scope at hv ⊢
  obtain ⟨u, hu, huv⟩ := Option.map_eq_some_iff.1 hv
  rw [h.vars name u hu, Option.map_some, huv]

/-- **The rules of an extended set are the old ones and more behind them.** -/
theorem Extends.rules_append (h : wide.Extends set) : ∃ more, wide.rules = set.rules ++ more := by
  obtain ⟨added, hadded⟩ := h.rules
  have hold : set.arch.rules.mapM (Rule.compile wide.arch.scope) = .ok set.rules :=
    mapM_mono (fun _ _ => Rule.compile_mono fun _ _ => h.scope) set.compiled
  have hwide : wide.arch.rules.mapM (Rule.compile wide.arch.scope) = .ok wide.rules := wide.compiled
  rw [← hadded, List.mapM_append, hold] at hwide
  rcases hmore : added.mapM (Rule.compile wide.arch.scope) with error | more
  · rw [hmore] at hwide
    cases hwide
  · rw [hmore] at hwide
    exact ⟨more, (Except.ok.inj hwide).symm⟩

/-- A rule of a set has operands for variables of the set only. -/
theorem find?_of_mem_layout (set : InstructionSet) {rule : Rule} (hrule : rule ∈ set.rules)
    {index : Nat} {name : String} (hentry : .operand index name ∈ rule.layout) :
    ∃ v, set.arch.find? name = some v := by
  obtain ⟨source, hsource⟩ := set.compile_of_mem hrule
  have hname := List.mem_of_getElem? (Rule.getElem?_of_mem_layout hsource hentry)
  obtain ⟨hknown, hnames, -⟩ := compile_eq_ok hsource
  rw [hnames] at hname
  obtain ⟨v, hv⟩ := hknown name hname
  obtain ⟨u, hu, -⟩ := Option.map_eq_some_iff.1 hv
  exact ⟨u, hu⟩

end InstructionSet

section

variable [Machine]

namespace InstructionSet

variable {wide set : InstructionSet}

/-- The architecture of an instruction set is that of its document. -/
theorem arch_of_ofDocument {name : String} {data : Document} {set : InstructionSet}
    (h : ofDocument name data = .ok set) : Arch.ofDocument name data = .ok set.arch := by
  unfold ofDocument at h
  rcases harch : Arch.ofDocument name data with fault | arch
  · rw [harch] at h
    cases h
  · rw [harch] at h
    simp only [bind, Except.bind, ofArch] at h
    split at h
    · cases h
      rfl
    · cases h

/-- The fields of a rule are the same under an extended set. -/
theorem Extends.ofEntry_eq (h : wide.Extends set) {rule : Rule} (hrule : rule ∈ set.rules)
    (operands : List String) {entry : Entry} (hentry : entry ∈ rule.layout) :
    Field.ofEntry wide.arch operands entry = Field.ofEntry set.arch operands entry := by
  cases entry with
  | bits digits => rfl
  | operand index name =>
    obtain ⟨v, hv⟩ := set.find?_of_mem_layout hrule hentry
    simp only [Field.ofEntry, Arch.scope, hv, h.vars name v hv]

/-- The fields of a rule are put together alike under an extended set. -/
theorem Extends.fieldsAfter_eq (h : wide.Extends set) {rule : Rule} (hrule : rule ∈ set.rules)
    (operands : List String) {layout : List Entry} (hlayout : ∀ entry ∈ layout, entry ∈ rule.layout)
    (opcode : Nat) : Instruction.fieldsAfter wide.arch operands opcode layout =
      Instruction.fieldsAfter set.arch operands opcode layout := by
  induction layout generalizing opcode with
  | nil => rfl
  | cons entry rest ih =>
    obtain ⟨hentry, hrest⟩ := List.forall_mem_cons.1 hlayout
    simp only [Instruction.fieldsAfter, h.ofEntry_eq hrule operands hentry, ih hrest]

end InstructionSet

/-! ## Refusals -/

/-- Whether a notice tells that no rule has accepted an instruction. -/
def Notice.isRefusal : Notice → Bool
  | .undecoded _ => true
  | .rejected (.notToken ..) => true
  | .rejected (.tooWide ..) => true
  | _ => false

/-- Whether a fault is a limit to what can be held or shown. -/
def Fault.isLimit : Fault → Bool
  | .excess _ => true
  | .decimalTooLong => true
  | _ => false

/-- Whether a fault is one of operands: a token that is not known, a number that is too wide, or a
limit. -/
def Fault.ofOperands : Fault → Bool
  | .rejected (.notToken ..) => true
  | .rejected (.tooWide ..) => true
  | fault => fault.isLimit

theorem Field.ofOperands_of_ofValue {bits : Nat} {value : Int} {pending : Option Pending}
    {fault : Fault} (h : ofValue bits value pending = .error fault) : fault.ofOperands = true := by
  rcases ofValue_cases bits value pending with ⟨-, -, hok⟩ | ⟨-, -, herror⟩ | ⟨why, -, herror⟩
  · rw [hok] at h
    cases h
  · rw [herror, Fault.showing] at h
    split at h
    · cases h
      rfl
    · cases h
      rfl
  · rw [herror] at h
    cases h
    rfl

namespace Assembler

open Attempt

variable {wide set : InstructionSet}

/-- What a rule makes of a line, by its fields. -/
theorem fields_encode (arch : Arch) (rule : Rule) (text : String) :
    (encode arch rule text).map (Except.map Encoding.fields) =
      (rule.captures text).map fun operands =>
        (Instruction.fieldsAfter arch operands 0 rule.layout).map Prod.fst := by
  rw [encode]
  split
  · rename_i hc
    rw [hc]
    rfl
  · rename_i operands hc
    have hfields : (rule.captures text).map
        (fun operands => (Instruction.fieldsAfter arch operands 0 rule.layout).map Prod.fst) =
          some ((Instruction.fieldsAfter arch operands 0 rule.layout).map Prod.fst) := by
      rw [hc]
      rfl
    rw [hfields]
    split
    · rename_i found hb
      exact congrArg (fun result => some (Except.map Prod.fst result)) hb.symm
    · rename_i fault hb
      exact congrArg (fun result => some (Except.map Prod.fst result)) hb.symm

theorem fields_encode_extended (h : wide.Extends set) {rule : Rule} (hrule : rule ∈ set.rules)
    (text : String) :
    (encode wide.arch rule text).map (Except.map Encoding.fields) =
      (encode set.arch rule text).map (Except.map Encoding.fields) := by
  rw [fields_encode, fields_encode]
  congr 1
  funext operands
  rw [h.fieldsAfter_eq hrule operands fun _ => id]

/-- The old rules pick the same fields under an extended set, unless they all refuse the line. -/
theorem pick_extended (h : wide.Extends set) (text : String) (more : List Rule) {rules : List Rule}
    (hrules : ∀ rule ∈ rules, rule ∈ set.rules) (last : Option Rejection) :
    (∀ e, pick set.arch text last rules = .ok (.inr e) →
      ∃ e', pick wide.arch text last (rules ++ more) = .ok (.inr e') ∧ e'.fields = e.fields) ∧
    ∀ fault, pick set.arch text last rules = .error fault →
      pick wide.arch text last (rules ++ more) = .error fault := by
  induction rules generalizing last with
  | nil =>
    constructor
    · rintro e ⟨⟩
    · rintro fault ⟨⟩
  | cons rule rest ih =>
    obtain ⟨hrule, hrest⟩ := List.forall_mem_cons.1 hrules
    have key := fields_encode_extended h hrule text
    rw [List.cons_append]
    unfold pick
    rcases hold : encode set.arch rule text with _ | (fault | e)
    · rw [hold, Option.map_none, Option.map_eq_none_iff] at key
      rw [key]
      exact ih hrest last
    · rw [hold, Option.map_some, Option.map_eq_some_iff] at key
      obtain ⟨result, hresult, hfault⟩ := key
      rcases result with other | e
      · obtain rfl := Except.error.inj hfault
        rw [hresult]
        -- Only a rejection lets the next rule have a try.
        cases other with
        | rejected rejection => exact ih hrest (some rejection)
        | _ => exact ⟨by rintro _ ⟨⟩, fun _ => id⟩
      · cases hfault
    · rw [hold, Option.map_some, Option.map_eq_some_iff] at key
      obtain ⟨result, hresult, hfields⟩ := key
      rcases result with fault | e'
      · cases hfields
      · rw [hresult]
        constructor
        · rintro _ ⟨⟩
          exact ⟨e', rfl, Except.ok.inj hfields⟩
        · rintro _ ⟨⟩

/-- An entry of a rule of a set fails for its operand only. -/
theorem ofOperands_of_ofEntry {rule : Rule} (hrule : rule ∈ set.rules) {text : String}
    {operands : List String} (hcaptures : rule.captures text = some operands) {entry : Entry}
    (hentry : entry ∈ rule.layout) {fault : Fault}
    (h : Field.ofEntry set.arch operands entry = .error fault) : fault.ofOperands = true := by
  cases entry with
  | bits digits => exact Field.ofOperands_of_ofValue h
  | operand index name =>
    obtain ⟨v, hv⟩ := set.find?_of_mem_layout hrule hentry
    obtain ⟨source, hsource⟩ := set.compile_of_mem hrule
    have hlt : index < operands.length := by
      rw [Rule.length_of_captures hsource hcaptures]
      exact Rule.lt_of_mem_layout hsource hentry
    simp only [Field.ofEntry, Arch.scope, hv, Option.map_some, List.getElem?_eq_getElem hlt] at h
    unfold Field.ofOperand at h
    split at h
    · split at h
      · exact Field.ofOperands_of_ofValue h
      · cases h
        rfl
    · split at h
      · exact Field.ofOperands_of_ofValue h
      · exact Field.ofOperands_of_ofValue h

/-- The fields of a rule of a set fail for an operand, or because they are too many bits. -/
theorem ofOperands_of_fieldsAfter {rule : Rule} (hrule : rule ∈ set.rules) {text : String}
    {operands : List String} (hcaptures : rule.captures text = some operands) {fault : Fault}
    (h : Instruction.fieldsAfter set.arch operands 0 rule.layout = .error fault) :
    fault.ofOperands = true := by
  obtain ⟨before, entry, after, fields, hlayout, -, -, hentry | ⟨f, why, -, -, rfl⟩⟩ :=
    Instruction.first_of_fieldsAfter_error h
  · refine ofOperands_of_ofEntry hrule hcaptures ?_ hentry
    rw [hlayout]
    exact List.mem_append_right before List.mem_cons_self
  · rfl

/-- A rule fails on a line as its fields do for what it captures there. -/
theorem fieldsAfter_of_encode {arch : Arch} {rule : Rule} {text : String} {fault : Fault}
    (h : encode arch rule text = some (.error fault)) :
    ∃ operands, rule.captures text = some operands ∧
      Instruction.fieldsAfter arch operands 0 rule.layout = .error fault := by
  have hfields := fields_encode arch rule text
  rw [h, Option.map_some, eq_comm, Option.map_eq_some_iff] at hfields
  obtain ⟨operands, hcaptures, hbuilt⟩ := hfields
  refine ⟨operands, hcaptures, ?_⟩
  rcases hfound : Instruction.fieldsAfter arch operands 0 rule.layout with other | found
  · rw [hfound] at hbuilt
    rw [Except.error.inj hbuilt]
  · rw [hfound] at hbuilt
    cases hbuilt

/-- A rule of a set fails on a line for its operands only. -/
theorem ofOperands_of_encode {rule : Rule} (hrule : rule ∈ set.rules) {text : String}
    {fault : Fault} (h : encode set.arch rule text = some (.error fault)) :
    fault.ofOperands = true := by
  obtain ⟨operands, hcaptures, hfound⟩ := fieldsAfter_of_encode h
  exact ofOperands_of_fieldsAfter hrule hcaptures hfound

/-- A rule of a set only rejects tokens it does not know and numbers that are too wide. -/
theorem isRefusal_of_encode {rule : Rule} (hrule : rule ∈ set.rules) {text : String}
    {rejection : Rejection} (h : encode set.arch rule text = some (.error (.rejected rejection))) :
    (Notice.rejected rejection).isRefusal = true := by
  have hfault := ofOperands_of_encode hrule h
  cases rejection with
  | notToken token tokens => rfl
  | tooWide value bits => rfl
  | _ => cases hfault

theorem isRefusal_of_pick {text : String} {rules : List Rule}
    (hrules : ∀ rule ∈ rules, rule ∈ set.rules) {last result : Option Rejection}
    (hlast : ∀ r ∈ last, (Notice.rejected r).isRefusal = true)
    (h : pick set.arch text last rules = .ok (.inl result)) :
    ∀ r ∈ result, (Notice.rejected r).isRefusal = true := by
  induction rules generalizing last with
  | nil =>
    cases h
    exact hlast
  | cons rule rest ih =>
    obtain ⟨hrule, hrest⟩ := List.forall_mem_cons.1 hrules
    unfold pick at h
    split at h
    · exact ih hrest hlast h
    · cases h
    · rename_i rejection hencode
      refine ih hrest ?_ h
      rintro _ ⟨⟩
      exact isRefusal_of_encode hrule hencode
    · cases h

/-! ## Other instruction sets -/

/-- An assembler with another instruction set and all else as it is. -/
def withActive (active : Option InstructionSet) (a : Assembler) : Assembler :=
  { a with active }

section WithActive

variable {active : Option InstructionSet} {a : Assembler}

theorem store_withActive (value : Int) :
    Mirrors (withActive active) (store value) (store value) a := by
  have hput : Mirrors id (Image.put a.ip value) (Image.put a.ip value) a.image := rfl
  refine .get_bind (.bind (.on hput rfl fun _ => rfl) ?_)
  intro u b hb
  exact .modify rfl

theorem each_store_withActive (values : List Int) :
    Mirrors (withActive active) (Attempt.each store values) (Attempt.each store values) a :=
  .each (fun _ => True) trivial (fun value _ _ _ => store_withActive value)
    fun _ _ _ _ _ _ => trivial

theorem emit_withActive (opcode nbits : Nat) :
    Mirrors (withActive active) (emit opcode nbits) (emit opcode nbits) a := by
  have hnote : Mirrors (withActive active) (note nbits) (note nbits) a := rfl
  refine .bind hnote fun record b hb => .get_bind ?_
  refine .bind (.ofExcept _) fun count c hc => .bind (.ofExcept _) fun bits d hd => ?_
  rw [← each_map store fun word : Nat => (word : Int)]
  exact .bind (each_store_withActive _) fun _ _ _ => rfl

theorem emitWords_withActive (values : List Int) :
    Mirrors (withActive active) (emitWords values) (emitWords values) a := by
  refine .get_bind ?_
  have hnote : Mirrors (withActive active) (note (a.width * values.length))
    (note (a.width * values.length)) a := rfl
  exact .bind hnote fun record b hb => .bind (each_store_withActive _) fun _ _ _ => rfl

theorem emitInstruction_withActive (instruction : Instruction) :
    Mirrors (withActive active) (emitInstruction instruction) (emitInstruction instruction) a := by
  refine .get_bind (.bind (.ofExcept _) fun notice b hb => ?_)
  have hqueue : ∀ c : Assembler, Mirrors (withActive active)
      (modify (fun a => { a with fixups := a.fixups ++ instruction.fixups.toArray }) >>= fun _ =>
        emit instruction.opcode instruction.nbits)
      (modify (fun a => { a with fixups := a.fixups ++ instruction.fixups.toArray }) >>= fun _ =>
        emit instruction.opcode instruction.nbits) c :=
    fun c => .bind (.modify rfl) fun _ _ _ => emit_withActive _ _
  cases notice with
  | none => exact hqueue b
  | some notice => exact .bind (.modify rfl) fun _ c _ => hqueue c

theorem perform_withActive (emission : Emission) :
    Mirrors (withActive active) (perform emission) (perform emission) a := by
  cases emission with
  | code e =>
    exact .get_bind (.bind (emitInstruction_withActive _) fun _ _ _ => rfl)
  | data tokens =>
    exact .bind (.modify rfl) fun _ _ _ => .bind (emitWords_withActive _) fun _ _ _ => rfl
  | text characters => exact .bind (emitWords_withActive _) fun _ _ _ => rfl

/-- An event that loads no instruction set does not see which one there is. -/
theorem apply_withActive {e : Event} (he : ∀ set, e ≠ .activate set) :
    (a.withActive active).apply e = (a.apply e).withActive active := by
  cases e with
  | activate set => exact absurd rfl (he set)
  | width n =>
    show (a.withActive active).setWidth n = (a.setWidth n).withActive active
    unfold setWidth
    split <;> rfl
  | align n =>
    show (a.withActive active).align n = (a.align n).withActive active
    unfold align
    show (if n < 1 ∨ a.codelen < n then _ else _) = _
    split <;> rfl
  | emit emission => exact guarded_of_mirrors (fun _ _ => rfl) (perform_withActive emission)
  | _ => rfl

theorem active_apply {e : Event} (he : ∀ set, e ≠ .activate set) :
    (a.apply e).active = a.active := by
  have happly : a.apply e = (a.apply e).withActive a.active := apply_withActive he
  rw [happly]
  rfl

/-- Finishing does not see the instruction set. -/
theorem finish_withActive (a : Assembler) :
    Mirrors (withActive active) finish finish a := by
  have hresolve : Mirrors (withActive active) resolveFixups resolveFixups a := by
    unfold Mirrors
    rw [runFrom_resolveFixups, runFrom_resolveFixups, warnAll_eq, warnAll_eq]
    rfl
  have hrender : ∀ b, Mirrors (withActive active) renderRecords renderRecords b := by
    intro b
    unfold Mirrors
    rw [runFrom_renderRecords, runFrom_renderRecords, warnAll_eq, warnAll_eq]
    rfl
  refine .bind hresolve fun _ b _ => .bind (hrender b) fun _ c _ => .get_bind ?_
  exact .bind (.ofExcept _) fun image d hd => rfl

end WithActive

/-! ## Runs under an extended set -/

/-- Whether two assemblers differ in nothing but that one of them has an extended set. -/
def Widened (a b : Assembler) : Prop :=
  ∃ set wide, a.active = some set ∧ wide.Extends set ∧ b = a.withActive (some wide)

end Assembler

/-- Whether two events make the same change: they are the same, or instructions of the same
fields. -/
inductive Event.SameFields : Event → Event → Prop where
  | same (e : Event) : SameFields e e
  | code {c c' : Encoding} (h : c'.fields = c.fields) :
    SameFields (.emit (.code c)) (.emit (.code c'))

/-- Whether an event does not tell that an instruction was refused. -/
def Event.Accepts (e : Event) : Prop :=
  ∀ notice, e = .tell notice → notice.isRefusal = false

namespace Assembler

open Attempt

theorem Widened.apply {a b : Assembler} (h : Widened a b) {e e' : Event} (he : e.SameFields e') :
    Widened (a.apply e) (b.apply e') := by
  obtain ⟨set, wide, hactive, hextends, rfl⟩ := h
  have hkept : ∀ e : Event, (∀ set, e ≠ .activate set) →
      Widened (a.apply e) ((a.withActive (some wide)).apply e) := by
    intro e he
    exact ⟨set, wide, (active_apply he).trans hactive, hextends, apply_withActive he⟩
  cases he with
  | same e =>
    cases e with
    | activate new => exact ⟨new, new, rfl, .refl new, rfl⟩
    | _ => exact hkept _ (by rintro _ ⟨⟩)
  | @code c c' hfields =>
    have hsame : (a.withActive (some wide)).apply (.emit (.code c')) =
        (a.withActive (some wide)).apply (.emit (.code c)) := by
      rw [Assembler.apply, Assembler.apply, perform, perform, hfields]
    rw [hsame]
    exact hkept _ (by rintro _ ⟨⟩)

/-- An instruction that is not refused is the same under an extended set. -/
theorem instructionEvents_widened {a b : Assembler} (h : Widened a b) (text : String)
    (haccepts : ∀ e ∈ instructionEvents a text, e.Accepts) :
    List.Forall₂ Event.SameFields (instructionEvents a text) (instructionEvents b text) := by
  obtain ⟨set, wide, hactive, hextends, rfl⟩ := h
  obtain ⟨more, hmore⟩ := hextends.rules_append
  have hwide : (a.withActive (some wide)).active = some wide := rfl
  have hpick := pick_extended hextends text more (fun _ => id) none
  unfold instructionEvents at haccepts ⊢
  rw [hactive] at haccepts ⊢
  rw [hwide]
  simp only [hmore] at haccepts ⊢
  rcases hset : pick set.arch text none set.rules with fault | (last | e)
  · rw [hpick.2 fault hset]
    exact .cons (.same _) .nil
  · -- All old rules refuse the line, which is told.
    rw [hset] at haccepts
    have hrefused := haccepts _ List.mem_cons_self _ rfl
    have hlast := isRefusal_of_pick (fun _ => id) (by rintro _ ⟨⟩) hset
    cases last with
    | none => cases hrefused
    | some r =>
      rw [show (Option.elim (some r) (Notice.undecoded text) Notice.rejected) = .rejected r
          from rfl,
        hlast r rfl] at hrefused
      cases hrefused
  · obtain ⟨e', he', hfields⟩ := hpick.1 e hset
    rw [he']
    exact .cons (.code hfields) .nil

/-- **A program runs in step with itself under an extended set**, as long as no line is refused. -/
theorem inStep_widened : InStep Widened Event.SameFields Event.Accepts where
  aborted := by
    rintro a _ ⟨set, wide, -, -, rfl⟩
    rfl
  apply := fun hab he _ => hab.apply he
  label := by
    rintro a _ ⟨set, wide, -, -, rfl⟩ name
    exact .same _
  instruction := fun hab => instructionEvents_widened hab
  same := fun e _ => .same e

omit [Machine] in
theorem widened_fresh {wide set : InstructionSet} (h : wide.Extends set) :
    Widened (fresh (some set)) (fresh (some wide)) := by
  refine ⟨set, wide, rfl, h, ?_⟩
  show activate wide {} = (activate set {}).withActive (some wide)
  rw [activate, activate, h.width]
  rfl

/-- A notice that an event tells stays told. -/
theorem exists_of_tell {a : Assembler} {events : List Event} {notice : Notice}
    (h : .tell notice ∈ events) :
    ∃ d ∈ (replay events a).diagnostics.toList, d.notice = notice := by
  obtain ⟨before, after, rfl⟩ := List.append_of_mem h
  rw [replay_append, replay_cons]
  refine ⟨⟨notice, (replay before a).line, false⟩, ?_, rfl⟩
  refine (prefix_replay after _).subset ?_
  rw [apply, warn, Array.toList_push, lineOr]
  exact List.mem_append_right _ (List.mem_singleton_self _)

/-- **Extending an instruction set is conservative.**  If no instruction of a program is refused,
then under the extended set it has the same result, and leaves the same assembler up to its
instruction set. -/
theorem assemble_extended {wide set : InstructionSet} (h : wide.Extends set)
    (library : Option Library) (text : String)
    (haccepted : ∀ d ∈ (leftBy library text (some set)).diagnostics.toList,
      d.notice.isRefusal = false) :
    ∃ active, (assemble library text).runFrom (fresh (some wide)) =
      (((assemble library text).runFrom (fresh (some set))).1,
        (leftBy library text (some set)).withActive active) := by
  have haccepts : ∀ e ∈ trace library (Text.lines text) (fresh (some set)), e.Accepts := by
    rintro _ he notice rfl
    obtain ⟨d, hd, rfl⟩ := exists_of_tell (a := fresh (some set)) he
    rw [← assembleLines_eq_replay] at hd
    obtain ⟨warnings, htold, -⟩ := (warns_leftBy library text (some set)).told
    refine haccepted d ?_
    rw [htold]
    exact List.mem_append_left _ hd
  obtain ⟨old, new, -, -, hlines⟩ := inStep_widened.assembleLines (widened_fresh h) haccepts
  refine ⟨some new, ?_⟩
  unfold leftBy assemble
  rw [runFrom_bind_ok (runFrom_modify _ _), runFrom_bind_ok (runFrom_modify _ _), hlines]
  exact finish_withActive _

end Assembler

end

namespace Assembler

/-- An instruction set with one rule, for registers. -/
def loads : Document :=
  .object [("width", .int 8),
    ("vars", .object [("reg", .object [("bits", .int 2), ("toks", .list [.text "a", .text "b"])])]),
    ("rules", .list [
      .object [("fmt", .text "ld ~reg"), ("bits", .list [.text "000000", .int 0])]])]

/-- The same set with a rule for numbers, which matches all lines that the old one does. -/
def moreLoads : Document :=
  .object [("width", .int 8),
    ("vars", .object [("reg", .object [("bits", .int 2), ("toks", .list [.text "a", .text "b"])]),
      ("imm", .object [("bits", .int 2)])]),
    ("rules", .list [
      .object [("fmt", .text "ld ~reg"), ("bits", .list [.text "000000", .int 0])],
      .object [("fmt", .text "ld ~imm"), ("bits", .list [.text "100000", .int 0])]])]

open UsualMachine in
theorem assemble_extended_loads :
    ∃ set wide, InstructionSet.ofDocument "loads" loads = .ok set ∧
      InstructionSet.ofDocument "loads" moreLoads = .ok wide ∧ wide.Extends set ∧
      (leftBy none "start: ld B\n.data start" (some set)).image.words = #[1, 0] ∧
      ∃ active, (assemble none "start: ld B\n.data start").runFrom (fresh (some wide)) =
        (((assemble none "start: ld B\n.data start").runFrom (fresh (some set))).1,
          (leftBy none "start: ld B\n.data start" (some set)).withActive active) := by
  have hruns : (leftBy none "start: ld B\n.data start"
      (InstructionSet.ofDocument "loads" loads).toOption).image.words = #[1, 0] ∧
      ((leftBy none "start: ld B\n.data start"
        (InstructionSet.ofDocument "loads" loads).toOption).diagnostics.toList.all
          fun d => !d.notice.isRefusal) = true ∧
      (InstructionSet.ofDocument "loads" loads).isOk = true ∧
      (InstructionSet.ofDocument "loads" moreLoads).isOk = true := by decide +kernel
  obtain ⟨hwords, haccepted, hset, hwide⟩ := hruns
  rcases hold : InstructionSet.ofDocument "loads" loads with fault | set
  · rw [hold] at hset
    cases hset
  rcases hnew : InstructionSet.ofDocument "loads" moreLoads with fault | wide
  · rw [hnew] at hwide
    cases hwide
  rw [hold] at hwords haccepted
  have hextends : wide.Extends set := by
    have hset := InstructionSet.arch_of_ofDocument hold
    have hwide := InstructionSet.arch_of_ofDocument hnew
    obtain ⟨arch, rules, hcompiled⟩ := set
    obtain ⟨arch', rules', hcompiled'⟩ := wide
    cases hset
    cases hwide
    exact ⟨rfl, fun _ _ => Arch.find?_of_prefix ⟨[_], rfl⟩, ⟨[_], rfl⟩⟩
  refine ⟨set, wide, rfl, rfl, hextends, hwords, ?_⟩
  refine assemble_extended hextends none _ ?_
  intro d hd
  simpa using List.all_eq_true.1 haccepted d hd

end Assembler

end Retarget
