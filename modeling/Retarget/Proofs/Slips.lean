import Retarget.Proofs.FinalWords
import Retarget.Proofs.Language

/-!
# Slips

A fault is a slip if it tells of an error in the assembler itself and not in what it was given: a
place outside of an image or a list, words of no bits, or a negative shift.  Every other fault is
clean.  `FailsFor` says of a computation that it fails for faults of one kind only, and
`Attempt.Safe` says of an attempt that it fails for clean faults only, with what holds of the state
that it reaches either way.

Here it is shown for what reads architectures and builds instructions.  A rule of an instruction set
captures as many operands as its layout may ask for, so no operand is out of range.
-/

namespace Retarget

/-! ## Slips -/

/-- Whether a fault is a slip of the assembler itself: a place outside of an image or a list, words
of no bits, or a negative shift. -/
def Fault.isSlip : Fault → Bool
  | .belowOrigin .. => true
  | .outOfRange => true
  | .placeTooLarge => true
  | .negativeShift => true
  | .zeroDivision => true
  | .zeroModulo => true
  | _ => false

/-- Whether a library fails for a fault. -/
def Library.Throws (library : Library) (fault : Fault) : Prop :=
  (∃ name, library.arch name = .error fault) ∨
    ∃ kind name, library.source kind name = .error fault

/-- Whether a fault is no slip, or one of the library. -/
def Fault.Foreseen (library : Option Library) (fault : Fault) : Prop :=
  fault.isSlip = true → ∃ lib ∈ library, lib.Throws fault

/-- Whether a fault is no slip. -/
def Fault.isClean (fault : Fault) : Bool :=
  !fault.isSlip

/-- A clean fault is foreseen. -/
theorem Fault.Foreseen.of_isClean {library : Option Library} {fault : Fault}
    (h : fault.isClean = true) : fault.Foreseen library := by
  intro hslip
  rw [Fault.isClean, hslip] at h
  cases h

/-- A clean fault stays one where its words show numbers. -/
theorem Fault.isClean_showing {numbers : List Int} {cause : Fault} (h : cause.isClean = true) :
    (Fault.showing numbers cause).isClean = true := by
  rw [Fault.showing]
  split
  · exact h
  · rfl

/-! ## Faults of a kind -/

/-- Whether a computation fails only for faults that are allowed. -/
def FailsFor {α : Type} (allowed : Fault → Bool) (result : Except Fault α) : Prop :=
  ∀ fault, result = .error fault → allowed fault = true

namespace FailsFor

variable {α β ε : Type} {allowed : Fault → Bool}

theorem ok (v : α) : FailsFor allowed (.ok v) := by
  rintro _ ⟨⟩

theorem error {fault : Fault} (h : allowed fault = true) :
    FailsFor allowed (.error fault : Except Fault α) := by
  rintro _ ⟨⟩
  exact h

/-- Two steps fail for what either of them fails for. -/
theorem bind {x : Except Fault α} {f : α → Except Fault β} (hx : FailsFor allowed x)
    (hf : ∀ v, x = .ok v → FailsFor allowed (f v)) : FailsFor allowed (x >>= f) := by
  rcases x with fault | v
  · exact .error (hx fault rfl)
  · exact hf v rfl

theorem map {x : Except Fault α} (hx : FailsFor allowed x) (f : α → β) :
    FailsFor allowed (x.map f) := by
  rcases x with fault | v
  · exact .error (hx fault rfl)
  · exact .ok (f v)

/-- A failure that is passed on as a fault fails for these faults. -/
theorem mapError {x : Except ε α} {wrap : ε → Fault} (h : ∀ e, allowed (wrap e) = true) :
    FailsFor allowed (x.mapError wrap) := by
  rcases x with e | v
  · exact .error (h e)
  · exact .ok v

/-- A step over a list fails for what it fails for on the members. -/
theorem mapM {f : β → Except Fault α} {xs : List β} (h : ∀ x ∈ xs, FailsFor allowed (f x)) :
    FailsFor allowed (xs.mapM f) := by
  intro fault hfault
  obtain ⟨x, hx, hfx⟩ := exists_of_mapM_error hfault
  exact h x hx fault hfx

/-- What fails for want of room only fails for an allowed fault, if that is one. -/
theorem of_excess (hexcess : ∀ why, allowed (.excess why) = true) {result : Except Fault α}
    (h : ∀ {fault}, result = .error fault → ∃ why, fault = .excess why) :
    FailsFor allowed result := by
  intro fault hfault
  obtain ⟨why, rfl⟩ := h hfault
  exact hexcess why

end FailsFor

/-- A notice can be told, or its numbers are too long to be written. -/
theorem Notice.clean_shown (notice : Notice) : FailsFor Fault.isClean notice.shown := by
  rw [Notice.shown]
  split
  · exact .ok _
  · exact .error rfl

/-! ## Attempts that fail cleanly -/

namespace Attempt

variable {σ α β : Type} {s : σ} {post : σ → Prop}

/-- Whether an attempt ends in a state with `post`, even where it fails, and fails for no slip. -/
structure Safe (x : Attempt σ α) (s : σ) (post : σ → Prop) : Prop where
  state : post (x.runFrom s).2
  fault : FailsFor Fault.isClean (x.runFrom s).1

theorem Safe.of_ok {x : Attempt σ α} {v : α} {t : σ} (h : x.runFrom s = (.ok v, t)) (ht : post t) :
    x.Safe s post := by
  refine ⟨?_, fun fault hfault => ?_⟩
  · rw [h]
    exact ht
  · rw [h] at hfault
    cases hfault

theorem Safe.of_error {x : Attempt σ α} {fault : Fault} {t : σ}
    (h : x.runFrom s = (.error fault, t)) (ht : post t) (hfault : fault.isClean = true) :
    x.Safe s post := by
  refine ⟨?_, fun other hother => ?_⟩
  · rw [h]
    exact ht
  · rw [h] at hother
    cases hother
    exact hfault

theorem Safe.ofExcept {result : Except Fault α} (h : FailsFor Fault.isClean result) (hs : post s) :
    (Attempt.ofExcept result : Attempt σ α).Safe s post :=
  ⟨hs, h⟩

/-- The second part of an attempt meets what the first one has reached. -/
theorem Safe.bind {x : Attempt σ α} {f : α → Attempt σ β} (hx : x.Safe s post)
    (hf : ∀ v t, x.runFrom s = (.ok v, t) → (f v).Safe t post) : (x >>= f).Safe s post := by
  rcases h : x.runFrom s with ⟨fault | v, t⟩
  · have ht : post t := by
      have := hx.state
      rwa [h] at this
    exact .of_error (runFrom_bind_error h f) ht (hx.fault fault (by rw [h]))
  · have hv := hf v t h
    refine ⟨?_, ?_⟩ <;> rw [runFrom_bind_ok h]
    · exact hv.state
    · exact hv.fault

theorem Safe.get_bind {f : σ → Attempt σ β} (h : (f s).Safe s post) : (get >>= f).Safe s post := by
  refine ⟨?_, ?_⟩ <;> rw [runFrom_bind_ok (runFrom_get s)]
  · exact h.state
  · exact h.fault

/-- A step that is safe for all members is safe over the list. -/
theorem Safe.each {f : β → Attempt σ Unit} {xs : List β} (hs : post s)
    (hf : ∀ x ∈ xs, ∀ t, post t → (f x).Safe t post) : (Attempt.each f xs).Safe s post := by
  induction xs generalizing s with
  | nil => exact .of_ok (runFrom_pure () s) hs
  | cons x rest ih =>
    have hx := hf x List.mem_cons_self s hs
    refine hx.bind fun u t ht => ?_
    have hpost := hx.state
    rw [ht] at hpost
    exact ih hpost fun y hy => hf y (List.mem_cons_of_mem x hy)

end Attempt

/-! ## Operands of a rule -/

namespace Rule

variable {scope : String → Option Definition} {source : RuleSource} {rule : Rule}

/-- A rule captures one operand for each of its slots. -/
theorem length_of_captures (h : compile scope source = .ok rule) {line : String}
    {operands : List String} (hcaptures : rule.captures line = some operands) :
    operands.length = rule.names.length := by
  obtain ⟨hscope, hnames, hsegments⟩ := compile_eq_ok h
  rw [captures, hsegments, Option.map_eq_some_iff] at hcaptures
  obtain ⟨parts, hparts, rfl⟩ := hcaptures
  obtain ⟨slots, hspell, rfl⟩ := exists_lineSpells hscope (Format.fits_of_captures hparts)
  rw [hnames, hspell.names, List.length_map, List.length_map, List.length_map]

/-- An operand of the layout of a rule belongs to the slot at its place. -/
theorem getElem?_of_mem_layout (h : compile scope source = .ok rule) {index : Nat} {name : String}
    (hentry : .operand index name ∈ rule.layout) : rule.names[index]? = some name := by
  obtain ⟨-, layout, hlayout, rfl⟩ := compile_iff.1 h
  obtain ⟨entry, -, hread⟩ := exists_of_mem_mapM hlayout hentry
  unfold entryOf at hread
  split at hread
  · split at hread <;> cases hread
  · split at hread
    · rename_i hname
      cases hread
      split at hname
      · exact hname
      · cases hname
    · cases hread
  · cases hread

/-- The operands in the layout of a rule are among its names. -/
theorem lt_of_mem_layout (h : compile scope source = .ok rule) {index : Nat} {name : String}
    (hentry : .operand index name ∈ rule.layout) : index < rule.names.length := by
  obtain ⟨hlt, -⟩ := List.getElem?_eq_some_iff.1 (getElem?_of_mem_layout h hentry)
  exact hlt

end Rule

/-- The rules of an instruction set are compiled from those of its architecture. -/
theorem InstructionSet.compile_of_mem (set : InstructionSet) {rule : Rule} (h : rule ∈ set.rules) :
    ∃ source, Rule.compile set.arch.scope source = .ok rule := by
  obtain ⟨source, -, hsource⟩ := exists_of_mem_mapM set.compiled h
  exact ⟨source, hsource⟩

/-! ## Computations that fail cleanly -/

variable [Machine]

namespace Capacity

/-- A field that is not narrower than nothing has bits, or too many. -/
theorem clean_fieldBits {width : Int} (h : 0 ≤ width) : FailsFor Fault.isClean (fieldBits width) :=
  .of_excess (fun _ => rfl) (fieldBits_eq_error h)

/-- A shift that is not negative succeeds, or is too long. -/
theorem clean_shiftUp (value : Int) {n : Int} (h : 0 ≤ n) :
    FailsFor Fault.isClean (shiftUp value n) :=
  .of_excess (fun _ => rfl) (shiftUp_eq_error h)

theorem clean_checkText (length : Nat) : FailsFor Fault.isClean (checkText length) := by
  rw [checkText]
  split
  · exact .error rfl
  · exact .ok _

theorem clean_holdText (s : String) : FailsFor Fault.isClean (holdText s) :=
  .bind (clean_checkText _) fun _ _ => .ok _

end Capacity

/-- The low bits of a value can be taken, or are too many. -/
theorem clean_lowBits {width : Int} (h : 0 ≤ width) (value : Int) :
    FailsFor Fault.isClean (lowBits width value) :=
  .bind (Capacity.clean_fieldBits h) fun _ _ => .ok _

theorem Hex.clean_fieldWidth (digits : Int) : FailsFor Fault.isClean (fieldWidth digits) := by
  rw [fieldWidth]
  repeat' split
  · exact .error rfl
  · exact .error rfl
  · exact .error rfl
  · exact .bind (Capacity.clean_checkText _) fun _ _ => .ok _

/-- Words can be written in hexadecimal, or are too long for it. -/
theorem Hex.clean_wordFields (width : Int) (words : List Nat) :
    FailsFor Fault.isClean (wordFields width words) := by
  rw [wordFields]
  split
  · exact .ok _
  · exact .bind (clean_fieldWidth _) fun _ _ => .bind (Capacity.clean_checkText _) fun _ _ => .ok _

/-! ## Faults of instructions -/

namespace Field

/-- A value makes a field, or does not fit for a reason that can be told. -/
theorem clean_ofValue (bits : Nat) (value : Int) (pending : Option Pending) :
    FailsFor Fault.isClean (ofValue bits value pending) := by
  refine .bind (Capacity.clean_fieldBits (Int.natCast_nonneg bits)) fun n hn => ?_
  split
  · exact .ok _
  · exact .error (Fault.isClean_showing rfl)

/-- With an operand for each slot, no entry of a layout fails for a slip. -/
theorem clean_ofEntry (arch : Arch) {operands : List String} {entry : Entry}
    (hindex : ∀ index name, entry = .operand index name → index < operands.length) :
    FailsFor Fault.isClean (ofEntry arch operands entry) := by
  cases entry with
  | bits digits => exact clean_ofValue _ _ _
  | operand index name =>
    rw [ofEntry, List.getElem?_eq_getElem (hindex index name rfl)]
    simp only
    split
    · exact .error rfl
    · exact .error rfl
    · exact .error rfl
    · rw [ofOperand]
      split
      · split
        · exact clean_ofValue _ _ _
        · exact .error rfl
      · split
        · exact clean_ofValue _ _ _
        · exact clean_ofValue _ _ _

end Field

/-- A layout fails as its entries do, or for want of room. -/
theorem Instruction.failsFor_fieldsAfter {allowed : Fault → Bool}
    (hexcess : ∀ why, allowed (.excess why) = true) {arch : Arch} {operands : List String}
    {layout : List Entry} {opcode : Nat}
    (h : ∀ entry ∈ layout, FailsFor allowed (Field.ofEntry arch operands entry)) :
    FailsFor allowed (fieldsAfter arch operands opcode layout) := by
  intro fault hfault
  obtain ⟨before, entry, after, fields, rfl, -, -, hentry | ⟨f, why, -, -, rfl⟩⟩ :=
    first_of_fieldsAfter_error hfault
  · exact h entry (List.mem_append_right before List.mem_cons_self) fault hentry
  · exact hexcess why

namespace Assembler

/-- A rule that matches a line fails for no slip. -/
theorem clean_of_encode {scope : String → Option Definition} {source : RuleSource} {rule : Rule}
    (hcompile : Rule.compile scope source = .ok rule) {arch : Arch} {text : String}
    {result : Except Fault Encoding} (h : encode arch rule text = some result) :
    FailsFor Fault.isClean result := by
  rw [encode] at h
  split at h
  · cases h
  · rename_i operands hcaptures
    have hfields :
        FailsFor Fault.isClean (Instruction.fieldsAfter arch operands 0 rule.layout) := by
      refine Instruction.failsFor_fieldsAfter (fun _ => rfl) fun entry hentry =>
        Field.clean_ofEntry arch fun index name he => ?_
      rw [Rule.length_of_captures hcompile hcaptures]
      exact Rule.lt_of_mem_layout hcompile (he ▸ hentry)
    split at h
    · cases h
      exact .ok _
    · rename_i fault hfault
      cases h
      exact .error (hfields fault hfault)

/-- Choosing a rule for a line fails for no slip. -/
theorem clean_pick {scope : String → Option Definition} (arch : Arch) (text : String)
    (last : Option Rejection) {rules : List Rule}
    (hrules : ∀ rule ∈ rules, ∃ source, Rule.compile scope source = .ok rule) :
    FailsFor Fault.isClean (pick arch text last rules) := by
  induction rules generalizing last with
  | nil => exact .ok _
  | cons rule rest ih =>
    obtain ⟨⟨source, hsource⟩, hrest⟩ := List.forall_mem_cons.1 hrules
    rw [pick]
    split
    · exact ih last hrest
    · exact .ok _
    · exact ih _ hrest
    · rename_i fault _ hencode
      exact .error (clean_of_encode hsource hencode fault rfl)

end Assembler

/-! ## Faults of architectures -/

section Architectures

variable {allowed : Fault → Bool} (harch : ∀ e, allowed (.arch e) = true)
  (hexcess : ∀ why, allowed (.excess why) = true)

include harch hexcess

/-- A document that describes no variable is refused for what is wrong with it. -/
theorem Variable.failsFor_ofDocument (name : String) (entry : Document) :
    FailsFor allowed (Variable.ofDocument name entry) := by
  have hbits : ∀ n : Nat, FailsFor allowed (Capacity.fieldBits n) := by
    intro n fault hfault
    obtain ⟨why, rfl⟩ := Capacity.fieldBits_eq_error (Int.natCast_nonneg n) hfault
    exact hexcess why
  unfold Variable.ofDocument
  split
  · simp only
    split
    · exact .error (harch _)
    · rename_i n pos _
      split
      · split
        · exact .ok _
        · exact .error (harch _)
      · split
        · exact .bind (hbits n) fun _ _ => .ok _
        · exact .error (harch _)
      · exact .error (harch _)
  · exact .error (harch _)

/-- A document that describes no architecture is refused for what is wrong with it. -/
theorem Arch.failsFor_ofDocument (name : String) (data : Document) :
    FailsFor allowed (Arch.ofDocument name data) := by
  unfold Arch.ofDocument
  split
  · split
    · simp only
      split
      · exact .error (harch _)
      · refine .bind (.mapM fun entry _ =>
          Variable.failsFor_ofDocument harch hexcess entry.1 entry.2) fun slots _ => ?_
        exact .bind (.mapError harch) fun rules _ => .ok _
    · exact .error (harch _)
    · exact .error (harch _)
  · exact .error (harch _)

/-- Reading an architecture from a text fails for what is wrong with the text or with the
architecture, or for want of room. -/
theorem Arch.failsFor_ofText {text : String}
    (hread : ∀ error malformed, Document.parse Machine.depth text = .error error →
      (∀ error, allowed (malformed error) = true) →
      allowed (Document.ReadError.fault malformed error) = true) (name : String) :
    FailsFor allowed (Arch.ofText name text) := by
  unfold Arch.ofText
  split
  · exact Arch.failsFor_ofDocument harch hexcess name _
  · exact .error (hread _ _ ‹_› fun _ => harch _)

/-- A document that describes no instructions is refused for what is wrong with it. -/
theorem InstructionSet.failsFor_ofDocument (name : String) (data : Document) :
    FailsFor allowed (InstructionSet.ofDocument name data) :=
  .bind (Arch.failsFor_ofDocument harch hexcess name data) fun _ _ => .mapError harch

end Architectures

/-- Reading an instruction set fails cleanly. -/
theorem InstructionSet.clean_ofDocument (name : String) (data : Document) :
    FailsFor Fault.isClean (InstructionSet.ofDocument name data) :=
  InstructionSet.failsFor_ofDocument (fun _ => rfl) (fun _ => rfl) name data

end Retarget
