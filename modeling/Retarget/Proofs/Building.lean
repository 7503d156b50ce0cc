import Retarget.Proofs.Decoding

/-!
# Building instructions

When a rule builds an instruction of operands, what the instruction is, and for which entry of its
layout the rule refuses them.

A variable accepts an operand if it is one of its tokens at a place that its field can hold, or a
number that fits, or no number at all.  The main results say that a rule of an accepted document
builds an instruction if every entry of its layout accepts its operand, has a field that can be held
and can be put behind the number of the entries in front of it, with one fixup for each operand that
is a symbol (`build_accepted`), and that the operands of a line that the rule matches are refused
for no other cause (`build_captured`).
-/

namespace Retarget

section

variable [Machine]

/-! ## Operands that a variable accepts -/

omit [Machine] in
theorem tokenIndex?_of_mem {names : List String} {token : String} (h : token ∈ names) :
    tokenIndex? names token = some (names.idxOf token) := by
  rw [tokenIndex?, List.findIdx?_eq_some_iff_findIdx_eq]
  exact ⟨List.idxOf_lt_length_iff.2 h, rfl⟩

omit [Machine] in
theorem tokenIndex?_of_not_mem {names : List String} {token : String} (h : token ∉ names) :
    tokenIndex? names token = none := by
  rw [tokenIndex?, List.findIdx?_eq_none_iff]
  intro name hname
  simp only [beq_eq_false_iff_ne]
  rintro rfl
  exact h hname

namespace Variable

/-- Whether a variable accepts an operand.  What is no number is taken for a symbol. -/
def Accepts (v : Variable) (operand : String) : Prop :=
  match v.domain with
  | .tokens names => operand ∈ names ∧ names.idxOf operand < 2 ^ v.bits
  | .number .. => ∀ value, Literal.parse operand = .ok value → 0 ≤ value ∧ value < 2 ^ v.bits

/-- Whether the field of a variable for numbers can be held. -/
def Held (v : Variable) : Prop :=
  ∀ relative offset, v.domain = .number relative offset → Capacity.fieldBits v.bits = .ok v.bits

/-- Whether the places of the tokens of a variable can be counted in its field. -/
def Counted (v : Variable) : Prop :=
  ∀ names, v.domain = .tokens names → Capacity.fieldBits v.bits = .ok v.bits

/-- The fault for which a variable refuses an operand. -/
inductive Refuses (v : Variable) (operand : String) : Fault → Prop
  | notToken {names : List String} (hdomain : v.domain = .tokens names) (hmem : operand ∉ names) :
      Refuses v operand (.rejected (.notToken operand names))
  | place {names : List String} (hdomain : v.domain = .tokens names) (hmem : operand ∈ names)
      (hwide : 2 ^ v.bits ≤ names.idxOf operand) :
      Refuses v operand (Fault.showing [(names.idxOf operand : Int)]
        (.rejected (.tooWide (names.idxOf operand) v.bits)))
  | value {relative : Bool} {offset value : Int} (hdomain : v.domain = .number relative offset)
      (hvalue : Literal.parse operand = .ok value) (hheld : Capacity.fieldBits v.bits = .ok v.bits)
      (hwide : ¬(0 ≤ value ∧ value < 2 ^ v.bits)) :
      Refuses v operand (Fault.showing [value] (.rejected (.tooWide value v.bits)))
  | unheld {relative : Bool} {offset : Int} {why : Excess}
      (hdomain : v.domain = .number relative offset)
      (hbits : Capacity.fieldBits v.bits = .error (.excess why)) :
      Refuses v operand (.excess why)

theorem not_held_of_fieldBits {v : Variable} {relative : Bool} {offset : Int} {why : Excess}
    (hdomain : v.domain = .number relative offset)
    (hbits : Capacity.fieldBits v.bits = .error (.excess why)) : ¬v.Held := by
  intro hheld
  rw [hheld relative offset hdomain] at hbits
  cases hbits

/-- **A variable gives a field to the operands that it accepts** and refuses the others. -/
theorem accepts_or_refuses {v : Variable} (hcounted : v.Counted) (operand : String) :
    ((v.Accepts operand ∧ v.Held) ∧ ∃ f, Field.ofOperand v operand = .ok f) ∨
      (¬(v.Accepts operand ∧ v.Held) ∧
        ∃ fault, Field.ofOperand v operand = .error fault ∧ v.Refuses operand fault) := by
  cases hdomain : v.domain with
  | tokens names =>
    have hheld : v.Held := by
      intro relative offset hnumber
      rw [hdomain] at hnumber
      cases hnumber
    simp only [Accepts, Field.ofOperand, hdomain]
    by_cases hmem : operand ∈ names
    · rw [tokenIndex?_of_mem hmem]
      rcases Field.ofValue_cases v.bits (names.idxOf operand) none with
        ⟨-, ⟨-, hlt⟩, hok⟩ | ⟨-, hwide, herror⟩ | ⟨why, hbits, -⟩
      · exact .inl ⟨⟨⟨hmem, by exact_mod_cast hlt⟩, hheld⟩, _, hok⟩
      · have hle : 2 ^ v.bits ≤ names.idxOf operand := by
          refine Nat.not_lt.1 fun hlt => hwide ⟨Int.natCast_nonneg _, ?_⟩
          exact_mod_cast hlt
        exact .inr ⟨fun h => Nat.not_lt.2 hle h.1.2, _, herror, .place hdomain hmem hle⟩
      · -- A document with tokens that cannot be counted was not accepted.
        rw [hcounted names hdomain] at hbits
        cases hbits
    · rw [tokenIndex?_of_not_mem hmem]
      exact .inr ⟨fun h => hmem h.1.1, _, rfl, .notToken hdomain hmem⟩
  | number relative offset =>
    have hheld : Capacity.fieldBits v.bits = .ok v.bits → v.Held := fun hbits _ _ _ => hbits
    simp only [Accepts, Field.ofOperand, hdomain]
    cases hvalue : Literal.parse operand with
    | ok value =>
      rcases Field.ofValue_cases v.bits value none with
        ⟨hbits, hfits, hok⟩ | ⟨hbits, hwide, herror⟩ | ⟨why, hbits, herror⟩
      · refine .inl ⟨⟨?_, hheld hbits⟩, _, hok⟩
        rintro _ ⟨⟩
        exact hfits
      · exact .inr ⟨fun h => hwide (h.1 value rfl), _, herror, .value hdomain hvalue hbits hwide⟩
      · exact .inr ⟨fun h => not_held_of_fieldBits hdomain hbits h.2, _, herror,
          .unheld hdomain hbits⟩
    | error fault =>
      rcases Field.ofValue_cases v.bits 0 (some ⟨operand, relative, offset⟩) with
        ⟨hbits, -, hok⟩ | ⟨-, hwide, -⟩ | ⟨why, hbits, herror⟩
      · refine .inl ⟨⟨?_, hheld hbits⟩, _, hok⟩
        rintro _ ⟨⟩
      · -- A symbol leaves zero in the field, which always fits.
        exact absurd ⟨Int.le_refl 0, by positivity⟩ hwide
      · exact .inr ⟨fun h => not_held_of_fieldBits hdomain hbits h.2, _, herror,
          .unheld hdomain hbits⟩

/-- The tokens of a variable of a document can be counted. -/
theorem counted_of_ofDocument {name : String} {entry : Document} {v : Variable}
    (h : ofDocument name entry = .ok v) : v.Counted := by
  intro names hdomain
  unfold ofDocument at h
  split at h
  · simp only at h
    split at h
    · cases h
    · rename_i n pos _
      split at h
      · split at h
        · cases h
          cases hdomain
        · cases h
      · split at h
        · rcases hbits : Capacity.fieldBits n with fault | bits
          · rw [hbits] at h
            cases h
          · obtain rfl : bits = n := (Capacity.fieldBits_eq_ok hbits).2
            rw [hbits] at h
            cases h
            exact hbits
        · cases h
      · cases h
  · cases h

end Variable

theorem InstructionSet.counted_of_find? {name : String} {data : Document} {set : InstructionSet}
    (h : ofDocument name data = .ok set) {slot : String} {v : Variable}
    (hv : set.arch.find? slot = some v) : v.Counted := by
  obtain ⟨_, _, _, -, -, -, hvars, -⟩ := Arch.ofDocument_eq_ok (arch_of_ofDocument h)
  obtain ⟨entry, -, hentry⟩ := exists_of_mem_mapM hvars (List.mem_of_find?_eq_some hv)
  exact Variable.counted_of_ofDocument hentry

/-! ## Entries of a layout -/

namespace Entry

/-- Whether the variable of an entry accepts its operand; bits need none. -/
def Accepts (arch : Arch) (operands : List String) : Entry → Prop
  | .bits _ => True
  | .operand index name => ∃ operand v, operands[index]? = some operand ∧
      arch.find? name = some v ∧ v.Accepts operand

/-- Whether the field of an entry can be held. -/
def Held (arch : Arch) : Entry → Prop
  | .bits digits => Capacity.fieldBits digits.length = .ok digits.length
  | .operand _ name => ∀ v, arch.find? name = some v → v.Held

/-- The fault for which an entry refuses its operand, or for which its bits cannot be held. -/
def Refuses (arch : Arch) (operands : List String) (fault : Fault) : Entry → Prop
  | .bits digits => ∃ why, fault = .excess why ∧
      Capacity.fieldBits digits.length = .error (.excess why)
  | .operand index name => ∃ operand v, operands[index]? = some operand ∧
      arch.find? name = some v ∧ v.Refuses operand fault

/-- Whether an entry has a field behind the entries in front of it: it accepts its operand, the
field can be held, and the number of those in front can be moved up by its bits. -/
structure Follows (arch : Arch) (operands : List String) (before : List Entry) (entry : Entry) :
    Prop where
  accepts : entry.Accepts arch operands
  held : entry.Held arch
  moves : ∀ fields, before.mapM (Field.ofEntry arch operands) = .ok fields →
    Capacity.Moves (Instruction.pack fields) (arch.bitsOf entry)

/-- The fault that an entry ends a layout with: the one for which it refuses its operand, or that
the number of the entries in front of it cannot be moved up by its bits. -/
inductive Ends (arch : Arch) (operands : List String) (before : List Entry) (entry : Entry) :
    Fault → Prop
  | refuses {fault : Fault} (h : entry.Refuses arch operands fault) :
      Ends arch operands before entry fault
  | unmoved {fields : List Field} {why : Excess}
      (hfields : before.mapM (Field.ofEntry arch operands) = .ok fields)
      (hmoves : ¬Capacity.Moves (Instruction.pack fields) (arch.bitsOf entry)) :
      Ends arch operands before entry (.excess why)

/-- The fixup of an entry whose operand is a symbol, in an instruction of `nbits` bits at an
address. -/
def fixup? (arch : Arch) (operands : List String) (address line : Int) (nbits bitofs : Nat) :
    Entry → Option Fixup
  | .bits _ => none
  | .operand index name =>
    match operands[index]?, arch.find? name with
    | some token, some v =>
      match v.domain, Literal.parse token with
      | .number relative offset, .error _ => some {
          sym := token, ofs := address, bitlen := v.bits, bitofs := bitofs, line := line,
          iprel := relative, ipofs := offset, nbits := nbits }
      | _, _ => none
    | _, _ => none

/-- How the entries of a layout are written: texts of zeros and ones for bits, and the places of the
slots for operands. -/
inductive Written (names : List String) : Document → Entry → Prop
  | bits {s : String} (hne : s ≠ "") (hdigits : ∀ c ∈ s.toList, c = '0' ∨ c = '1') :
      Written names (.text s) (.bits (s.toList.map (· == '1')))
  | operand {index : Nat} {name : String} (hname : names[index]? = some name) :
      Written names (.int index) (.operand index name)

omit [Machine] in
/-- Compiling accepts only entries that are written so. -/
theorem written_of_entryOf {format : String} {names : List String} {entry : Document} {e : Entry}
    (h : Rule.entryOf format names entry = .ok e) : Written names entry e := by
  unfold Rule.entryOf at h
  split at h
  · rename_i s
    by_cases hs : (s.toList.isEmpty || !s.toList.all fun c => c == '0' || c == '1') = true
    · simp only [Rule.bits?, if_pos hs] at h
      cases h
    · simp only [Rule.bits?, if_neg hs] at h
      cases h
      simp only [Bool.or_eq_true, List.isEmpty_iff, Bool.not_eq_true', not_or, Bool.not_eq_false,
        List.all_eq_true, beq_iff_eq] at hs
      refine .bits (fun hempty => hs.1 ?_) hs.2
      rw [hempty]
      rfl
  · rename_i n
    by_cases hn : 0 ≤ n
    · obtain ⟨index, rfl⟩ := Int.eq_ofNat_of_zero_le hn
      simp only [if_pos hn, Int.toNat_natCast] at h
      cases hname : names[index]? with
      | none =>
        simp only [hname] at h
        cases h
      | some name =>
        simp only [hname] at h
        cases h
        exact .operand hname
    · simp only [if_neg hn] at h
      cases h
  · cases h

/-- An entry with a known variable gives a field or refuses its operand. -/
theorem accepts_or_refuses {arch : Arch} {operands : List String} {entry : Entry}
    (hcounted : ∀ name v, arch.find? name = some v → v.Counted)
    (hknown : ∀ index name, entry = .operand index name →
      index < operands.length ∧ ∃ v, arch.find? name = some v) :
    ((entry.Accepts arch operands ∧ entry.Held arch) ∧
        ∃ f, Field.ofEntry arch operands entry = .ok f) ∨
      (¬(entry.Accepts arch operands ∧ entry.Held arch) ∧
        ∃ fault, Field.ofEntry arch operands entry = .error fault ∧
          entry.Refuses arch operands fault) := by
  cases entry with
  | bits digits =>
    rcases Field.ofValue_cases digits.length (bitsValue digits) none with
      ⟨hbits, -, hok⟩ | ⟨-, hwide, -⟩ | ⟨why, hbits, herror⟩
    · exact .inl ⟨⟨trivial, hbits⟩, _, hok⟩
    · exact absurd ⟨Int.natCast_nonneg _, by exact_mod_cast bitsValue_lt digits⟩ hwide
    · refine .inr ⟨fun h => ?_, _, herror, why, rfl, hbits⟩
      rw [Held, hbits] at h
      cases h.2
  | operand index name =>
    obtain ⟨hindex, v, hv⟩ := hknown index name rfl
    have hoperand := List.getElem?_eq_getElem hindex
    generalize operands[index] = operand at hoperand
    have hofEntry :
        Field.ofEntry arch operands (.operand index name) = Field.ofOperand v operand := by
      simp only [Field.ofEntry, Arch.scope, hoperand, hv, Option.map_some]
    have haccepts : Accepts arch operands (.operand index name) ↔ v.Accepts operand := by
      simp only [Accepts, hoperand, hv, Option.some.injEq, exists_eq_left', exists_and_left]
    have hheld : Held arch (.operand index name) ↔ v.Held := by
      simp only [Held, hv, Option.some.injEq, forall_eq']
    rw [hofEntry, haccepts, hheld]
    refine (Variable.accepts_or_refuses (hcounted name v hv) operand).imp_right ?_
    rintro ⟨hnot, fault, herror, hrefuses⟩
    exact ⟨hnot, fault, herror, operand, v, hoperand, hv, hrefuses⟩

end Entry

/-- An entry has a fixup if its field waits for a symbol. -/
theorem Field.fixup?_of_ofEntry {arch : Arch} {operands : List String} {entry : Entry} {f : Field}
    (h : ofEntry arch operands entry = .ok f) (address line : Int) (nbits bitofs : Nat) :
    entry.fixup? arch operands address line nbits bitofs = f.pending.map fun p => {
      sym := p.sym, ofs := address, bitlen := f.bits, bitofs := bitofs, line := line,
      iprel := p.relative, ipofs := p.offset, nbits := nbits } := by
  cases entry with
  | bits digits =>
    obtain ⟨-, rfl⟩ := ofValue_eq_ok h
    rfl
  | operand index name =>
    obtain ⟨operand, v, hoperand, hv, hgiven⟩ := given_of_ofEntry h
    cases hgiven with
    | token hdomain _ _ => simp only [Entry.fixup?, hoperand, hv, hdomain, Option.map_none]
    | number hdomain hvalue _ =>
      simp only [Entry.fixup?, hoperand, hv, hdomain, hvalue, Option.map_none]
    | symbol hdomain hvalue =>
      cases hparse : Literal.parse operand with
      | ok value => exact absurd hparse (hvalue value)
      | error fault => simp only [Entry.fixup?, hoperand, hv, hdomain, hparse, Option.map_some]

/-! ## Instructions -/

namespace Instruction

/-- What the instruction of a layout is: what its number reads as, and the fixups of its symbols, on
bits apart from each other on which the number is zero. -/
structure LaidOut (arch : Arch) (layout : List Entry) (operands : List String) (address line : Int)
    (instruction : Instruction) : Prop where
  nbits : instruction.nbits = (layout.map arch.bitsOf).sum
  opcode_lt : instruction.opcode < 2 ^ instruction.nbits
  reads : List.Forall₂ (Entry.Reads arch operands) layout
    (Bits.slices instruction.opcode (layout.map arch.bitsOf))
  fixups : instruction.fixups = (layout.mapIdx fun k entry =>
    entry.fixup? arch operands address line instruction.nbits
      ((layout.take k).map arch.bitsOf).sum).reduceOption
  apart : instruction.fixups.Pairwise fun f g => f.bitofs + f.bitlen ≤ g.bitofs
  within : ∀ f ∈ instruction.fixups,
    0 ≤ f.bitofs ∧ 1 ≤ f.bitlen ∧ f.bitofs + f.bitlen ≤ instruction.nbits
  blank : ∀ f ∈ instruction.fixups, ∀ j : Nat, f.bitofs ≤ j → j < f.bitofs + f.bitlen →
    instruction.opcode.testBit (instruction.nbits - 1 - j) = false

/-- The fixups of an instruction are those of the entries of its layout. -/
theorem fixupsOf_eq {arch : Arch} {operands : List String} {layout : List Entry}
    {fields : List Field} (h : layout.mapM (Field.ofEntry arch operands) = .ok fields)
    (address line : Int) (nbits bitofs : Nat) :
    fixupsOf address line nbits bitofs fields = (layout.mapIdx fun k entry =>
      entry.fixup? arch operands address line nbits
        (bitofs + ((layout.take k).map arch.bitsOf).sum)).reduceOption := by
  -- The rest of the layout begins behind the first entry, so the offset varies.
  induction layout generalizing fields bitofs with
  | nil =>
    cases h
    rfl
  | cons entry rest ih =>
    obtain ⟨f, more, hf, hmore, rfl⟩ := mapM_cons_eq_ok h
    have hbits := Field.bits_of_ofEntry hf
    rw [fixupsOf, ih hmore, List.mapIdx_cons, List.take_zero, List.map_nil, List.sum_nil,
      Nat.add_zero,
      Field.fixup?_of_ofEntry hf]
    simp only [List.take_succ_cons, List.map_cons, List.sum_cons, ← hbits, ← Nat.add_assoc]
    cases f.pending with
    | none => rfl
    | some p => rfl

omit [Machine] in
/-- The fixups of fields are on bits apart from each other. -/
theorem apart_fixupsOf {address line : Int} {nbits bitofs : Nat} {fields : List Field}
    (hpos : ∀ f ∈ fields, f.pending ≠ none → 0 < f.bits) :
    (fixupsOf address line nbits bitofs fields).Pairwise
      fun f g => f.bitofs + f.bitlen ≤ g.bitofs := by
  induction fields generalizing bitofs with
  | nil => exact .nil
  | cons f rest ih =>
    have hrest : ∀ g ∈ rest, g.pending ≠ none → 0 < g.bits :=
      fun g hg => hpos g (List.mem_cons_of_mem f hg)
    rw [fixupsOf]
    cases f.pending with
    | none => exact ih hrest
    | some p =>
      refine List.pairwise_cons.2 ⟨?_, ih hrest⟩
      intro fix hfix
      obtain ⟨hbitofs, -⟩ := within_fixupsOf hrest fix hfix
      exact_mod_cast hbitofs

omit [Machine] in
/-- An instruction is zero on the bits of its fixups. -/
theorem testBit_pack {address line : Int} {nbits bitofs : Nat} {fields : List Field}
    (hpos : ∀ f ∈ fields, f.pending ≠ none → 0 < f.bits) (hsound : ∀ f ∈ fields, f.Sound)
    (hlength : bitofs + lengthOf fields = nbits) {fix : Fixup}
    (hfix : fix ∈ fixupsOf address line nbits bitofs fields) {j : Nat} (hstart : fix.bitofs ≤ j)
    (hend : j < fix.bitofs + fix.bitlen) : (pack fields).testBit (nbits - 1 - j) = false := by
  induction fields generalizing bitofs with
  | nil => cases hfix
  | cons f rest ih =>
    obtain ⟨hf, hrest⟩ := List.forall_mem_cons.1 hsound
    have hposrest : ∀ g ∈ rest, g.pending ≠ none → 0 < g.bits :=
      fun g hg => hpos g (List.mem_cons_of_mem f hg)
    rw [lengthOf_cons] at hlength
    rw [pack_cons]
    rw [fixupsOf] at hfix
    rcases List.mem_append.1 hfix with hfix | hfix
    · -- The field itself waits: it is zero, and what is below it does not reach its bits.
      rcases hpending : f.pending with _ | p
      · rw [hpending] at hfix
        cases hfix
      · have hzero : f.value = 0 := hf.blank (by rw [hpending]; exact Option.some_ne_none p)
        rw [hpending] at hfix
        cases List.mem_singleton.1 hfix
        simp only at hstart hend
        rw [hzero, Nat.mul_zero, Nat.zero_add]
        refine Nat.testBit_lt_two_pow (Nat.lt_of_lt_of_le (pack_lt hrest) ?_)
        exact Nat.pow_le_pow_right Nat.two_pos (by omega)
    · obtain ⟨hbitofs, -, hlast, -⟩ := within_fixupsOf hposrest fix hfix
      have hbelow : nbits - 1 - j < lengthOf rest := by omega
      rw [Nat.testBit_two_pow_mul_add _ (pack_lt hrest), if_pos hbelow]
      exact ih hposrest hrest (by omega) hfix

/-- **Fields of a layout make an instruction that is laid out so.** -/
theorem laidOut_ofFields {arch : Arch} {operands : List String} {layout : List Entry}
    {fields : List Field} (h : layout.mapM (Field.ofEntry arch operands) = .ok fields)
    (address line : Int) :
    (ofFields address line fields).LaidOut arch layout operands address line := by
  have hsound : ∀ f ∈ fields, f.Sound := by
    intro f hf
    obtain ⟨entry, -, hentry⟩ := exists_of_mem_mapM h hf
    exact Field.sound_of_ofEntry hentry
  have hpos : ∀ f ∈ fields, f.pending ≠ none → 0 < f.bits := by
    intro f hf hpending
    obtain ⟨entry, -, hentry⟩ := exists_of_mem_mapM h hf
    exact Field.bits_pos_of_ofEntry hentry hpending
  refine ⟨lengthOf_of_mapM h, pack_lt hsound, reads_slices h, ?_, apart_fixupsOf hpos, ?_, ?_⟩
  · have hfixups := fixupsOf_eq h address line (lengthOf fields) 0
    simp only [Nat.zero_add] at hfixups
    exact hfixups
  · intro fix hfix
    obtain ⟨hbitofs, hbitlen, hend, -⟩ := within_fixupsOf hpos fix hfix
    refine ⟨by omega, hbitlen, ?_⟩
    show fix.bitofs + fix.bitlen ≤ (lengthOf fields : Int)
    omega
  · intro fix hfix j hstart hend
    exact testBit_pack hpos hsound (Nat.zero_add _) hfix hstart hend

end Instruction

/-! ## Rules of an accepted document -/

section Accepted

variable {name : String} {data : Document} {set : InstructionSet} {rule : Rule}
  {operands : List String}

omit [Machine] in
/-- The operands of a layout have places among the slots, and variables. -/
theorem InstructionSet.slot_of_mem_layout (hrule : rule ∈ set.rules)
    (harity : operands.length = rule.names.length) {index : Nat} {slot : String}
    (hentry : .operand index slot ∈ rule.layout) :
    index < operands.length ∧ rule.names[index]? = some slot ∧
      ∃ v, set.arch.find? slot = some v := by
  obtain ⟨source, hsource⟩ := set.compile_of_mem hrule
  refine ⟨?_, Rule.getElem?_of_mem_layout hsource hentry, set.find?_of_mem_layout hrule hentry⟩
  rw [harity]
  exact Rule.lt_of_mem_layout hsource hentry

/-- Every entry of a rule gives a field or refuses its operand. -/
theorem InstructionSet.accepts_or_refuses (hset : ofDocument name data = .ok set)
    (hrule : rule ∈ set.rules) (harity : operands.length = rule.names.length) {entry : Entry}
    (hentry : entry ∈ rule.layout) :
    ((entry.Accepts set.arch operands ∧ entry.Held set.arch) ∧
        ∃ f, Field.ofEntry set.arch operands entry = .ok f) ∨
      (¬(entry.Accepts set.arch operands ∧ entry.Held set.arch) ∧
        ∃ fault, Field.ofEntry set.arch operands entry = .error fault ∧
          entry.Refuses set.arch operands fault) := by
  refine Entry.accepts_or_refuses (fun _ _ => counted_of_find? hset) ?_
  rintro index slot rfl
  obtain ⟨hindex, -, hv⟩ := slot_of_mem_layout hrule harity hentry
  exact ⟨hindex, hv⟩

theorem InstructionSet.exists_ofEntry_iff (hset : ofDocument name data = .ok set)
    (hrule : rule ∈ set.rules) (harity : operands.length = rule.names.length) {entry : Entry}
    (hentry : entry ∈ rule.layout) :
    (∃ f, Field.ofEntry set.arch operands entry = .ok f) ↔
      entry.Accepts set.arch operands ∧ entry.Held set.arch := by
  rcases accepts_or_refuses hset hrule harity hentry with ⟨haccepts, hf⟩ | ⟨hnot, fault, herror, -⟩
  · exact ⟨fun _ => haccepts, fun _ => hf⟩
  · refine ⟨?_, fun haccepts => absurd haccepts hnot⟩
    rintro ⟨f, hf⟩
    rw [herror] at hf
    cases hf

theorem InstructionSet.refuses_of_ofEntry (hset : ofDocument name data = .ok set)
    (hrule : rule ∈ set.rules) (harity : operands.length = rule.names.length) {entry : Entry}
    (hentry : entry ∈ rule.layout) {fault : Fault}
    (h : Field.ofEntry set.arch operands entry = .error fault) :
    entry.Refuses set.arch operands fault := by
  rcases accepts_or_refuses hset hrule harity hentry with ⟨-, f, hf⟩ | ⟨-, other, herror, hrefuses⟩
  · rw [hf] at h
    cases h
  · rw [herror] at h
    cases h
    exact hrefuses

namespace Instruction

/-- A rule fails to build as its fields do. -/
theorem build_eq_error {arch : Arch} {address line : Int} {fault : Fault}
    (h : build arch rule operands address line = .error fault) :
    fieldsAfter arch operands 0 rule.layout = .error fault := by
  rw [build_eq] at h
  cases hfields : fieldsAfter arch operands 0 rule.layout with
  | ok found =>
    rw [hfields] at h
    cases h
  | error other =>
    rw [hfields] at h
    cases h
    rfl

/-- A rule builds the instruction of its fields. -/
theorem build_eq_ok {arch : Arch} {address line : Int} {instruction : Instruction}
    (h : build arch rule operands address line = .ok instruction) :
    ∃ fields, rule.layout.mapM (Field.ofEntry arch operands) = .ok fields ∧ Stacks 0 fields ∧
      instruction = ofFields address line fields := by
  rw [build_eq] at h
  cases hfields : fieldsAfter arch operands 0 rule.layout with
  | error fault =>
    rw [hfields] at h
    cases h
  | ok found =>
    rw [hfields] at h
    obtain ⟨hmapM, hstacks, -⟩ := fieldsAfter_eq_ok.1 hfields
    exact ⟨found.1, hmapM, hstacks, (Except.ok.inj h).symm⟩

/-- Every entry among those whose fields were put together follows the ones in front of it. -/
theorem follows_of_stacks (hset : InstructionSet.ofDocument name data = .ok set)
    (hrule : rule ∈ set.rules) (harity : operands.length = rule.names.length)
    {layout : List Entry} (hlayout : ∀ entry ∈ layout, entry ∈ rule.layout) {fields : List Field}
    (hfields : layout.mapM (Field.ofEntry set.arch operands) = .ok fields)
    (hstacks : Stacks 0 fields) {before after : List Entry} {entry : Entry}
    (hsplit : layout = before ++ entry :: after) : entry.Follows set.arch operands before := by
  rw [hsplit, List.mapM_append, List.mapM_cons] at hfields
  rcases hbefore : before.mapM (Field.ofEntry set.arch operands) with fault | front
  · rw [hbefore] at hfields
    cases hfields
  rcases hentry : Field.ofEntry set.arch operands entry with fault | f
  · rw [hbefore, hentry] at hfields
    cases hfields
  rcases hafter : after.mapM (Field.ofEntry set.arch operands) with fault | rest
  · rw [hbefore, hentry, hafter] at hfields
    cases hfields
  rw [hbefore, hentry, hafter] at hfields
  obtain rfl : front ++ f :: rest = fields := Except.ok.inj hfields
  have hmem : entry ∈ rule.layout := by
    refine hlayout entry ?_
    rw [hsplit]
    exact List.mem_append_right before List.mem_cons_self
  obtain ⟨haccepts, hheld⟩ :=
    (InstructionSet.exists_ofEntry_iff hset hrule harity hmem).1 ⟨f, hentry⟩
  refine ⟨haccepts, hheld, fun others hothers => ?_⟩
  rw [hbefore] at hothers
  obtain rfl := Except.ok.inj hothers
  rw [← Field.bits_of_ofEntry hentry]
  exact hstacks.moves

/-- A rule that does not build ends at the first entry that does not follow those in front of it. -/
theorem ends_of_build (hset : InstructionSet.ofDocument name data = .ok set)
    (hrule : rule ∈ set.rules) (harity : operands.length = rule.names.length) {address line : Int}
    {fault : Fault} (h : build set.arch rule operands address line = .error fault) :
    ∃ before entry after, rule.layout = before ++ entry :: after ∧
      (∀ front e rest, before = front ++ e :: rest → e.Follows set.arch operands front) ∧
      ¬entry.Follows set.arch operands before ∧ entry.Ends set.arch operands before fault := by
  obtain ⟨before, entry, after, fields, hlayout, hfields, hstacks, hfault⟩ :=
    first_of_fieldsAfter_error (build_eq_error h)
  have hentry : entry ∈ rule.layout := by
    rw [hlayout]
    exact List.mem_append_right before List.mem_cons_self
  refine ⟨before, entry, after, hlayout, fun front e rest => ?_, ?_⟩
  · refine follows_of_stacks hset hrule harity (fun e he => ?_) hfields hstacks
    rw [hlayout]
    exact List.mem_append_left _ he
  rcases hfault with herror | ⟨f, why, hf, hmoves, rfl⟩
  · refine ⟨fun hfollows => ?_,
      .refuses (InstructionSet.refuses_of_ofEntry hset hrule harity hentry herror)⟩
    obtain ⟨f, hf⟩ := (InstructionSet.exists_ofEntry_iff hset hrule harity hentry).2
      ⟨hfollows.accepts, hfollows.held⟩
    rw [herror] at hf
    cases hf
  · rw [Field.bits_of_ofEntry hf] at hmoves
    exact ⟨fun hfollows => hmoves (hfollows.moves fields hfields), .unmoved hfields hmoves⟩

/-- **A rule builds an instruction of the operands that all entries of its layout accept**, as far
as their fields and what they make can be held.  The instruction is laid out as the rule says;
otherwise the first entry that does not follow those in front of it ends the layout with its
fault. -/
theorem build_accepted (hset : InstructionSet.ofDocument name data = .ok set)
    (hrule : rule ∈ set.rules) (harity : operands.length = rule.names.length) (address line : Int) :
    ((∃ instruction, build set.arch rule operands address line = .ok instruction) ↔
        ∀ before entry after, rule.layout = before ++ entry :: after →
          entry.Follows set.arch operands before) ∧
      (∀ instruction, build set.arch rule operands address line = .ok instruction →
        instruction.LaidOut set.arch rule.layout operands address line) ∧
      ∀ fault, build set.arch rule operands address line = .error fault →
        ∃ before entry after, rule.layout = before ++ entry :: after ∧
          (∀ front e rest, before = front ++ e :: rest → e.Follows set.arch operands front) ∧
          ¬entry.Follows set.arch operands before ∧
          entry.Ends set.arch operands before fault := by
  refine ⟨⟨?_, ?_⟩, ?_, fun fault => ends_of_build hset hrule harity⟩
  · rintro ⟨instruction, hbuild⟩ before entry after
    obtain ⟨fields, hfields, hstacks, -⟩ := build_eq_ok hbuild
    exact follows_of_stacks hset hrule harity (fun _ => id) hfields hstacks
  · intro hall
    rcases hbuild : build set.arch rule operands address line with fault | instruction
    · obtain ⟨before, entry, after, hlayout, -, hnot, -⟩ := ends_of_build hset hrule harity hbuild
      exact absurd (hall before entry after hlayout) hnot
    · exact ⟨instruction, rfl⟩
  · intro instruction hbuild
    obtain ⟨fields, hfields, -, rfl⟩ := build_eq_ok hbuild
    exact laidOut_ofFields hfields address line

end Instruction

end Accepted

end

namespace Instruction

open UsualMachine in
theorem build_accepted_symbol :
    ∃ set, InstructionSet.ofDocument "" Assembler.sampleLoads = .ok set ∧
      ∃ rule ∈ set.rules, rule.names.length = 2 ∧
        (∀ before entry after, rule.layout = before ++ entry :: after →
          entry.Follows set.arch ["b", "there"] before) ∧
        ∃ instruction, build set.arch rule ["b", "there"] 5 1 = .ok instruction ∧
          instruction.opcode = 256 ∧ instruction.fixups = [⟨"there", 5, 8, 8, 1, false, 0, 16⟩] ∧
          instruction.LaidOut set.arch rule.layout ["b", "there"] 5 1 := by
  have hruns : (InstructionSet.ofDocument "" Assembler.sampleLoads).toOption.any (fun set =>
      decide (∃ rule ∈ set.rules, rule.names.length = 2 ∧
        (build set.arch rule ["b", "there"] 5 1).toOption =
          some ⟨256, 16, [⟨"there", 5, 8, 8, 1, false, 0, 16⟩]⟩)) = true := by
    decide +kernel
  obtain ⟨set, hset, hset'⟩ := (Option.any_eq_true _ _).1 hruns
  obtain ⟨rule, hrule, hnames, hbuild⟩ := of_decide_eq_true hset'
  obtain ⟨hiff, hlaid, -⟩ := build_accepted (Assembler.ok_of_toOption hset) hrule
    (show ["b", "there"].length = rule.names.length from hnames.symm) 5 1
  have hok := Assembler.ok_of_toOption hbuild
  exact ⟨set, Assembler.ok_of_toOption hset, rule, hrule, hnames, hiff.1 ⟨_, hok⟩, _, hok, rfl, rfl,
    hlaid _ hok⟩

/-- A document with a rule for numbers of more bits than can be held. -/
def sampleOverwide : Document :=
  Assembler.sampleSet [("n", .object [("bits", .int 99999999999999999999)])] [("ld ~n", [.int 0])]

open UsualMachine in
theorem not_build_overwide :
    ∃ set, InstructionSet.ofDocument "" sampleOverwide = .ok set ∧
      ∃ rule ∈ set.rules, rule.names.length = 1 ∧
        (∀ entry ∈ rule.layout, entry.Accepts set.arch ["5"]) ∧
        ∀ instruction, build set.arch rule ["5"] 0 0 ≠ .ok instruction := by
  have hruns : (InstructionSet.ofDocument "" sampleOverwide).toOption.any (fun set =>
      decide (∃ rule ∈ set.rules, rule.names.length = 1 ∧ rule.layout = [.operand 0 "n"] ∧
        (∃ v ∈ set.arch.find? "n", v.domain = .number false 0 ∧ 5 < v.bits) ∧
        (build set.arch rule ["5"] 0 0).toOption = none)) = true := by
    decide +kernel
  obtain ⟨set, hset, hset'⟩ := (Option.any_eq_true _ _).1 hruns
  obtain ⟨rule, hrule, hnames, hlayout, ⟨v, hv, hdomain, hbits⟩, hbuild⟩ := of_decide_eq_true hset'
  refine ⟨set, Assembler.ok_of_toOption hset, rule, hrule, hnames, ?_, ?_⟩
  · have hparse : Literal.parse "5" = .ok 5 := by decide +kernel
    have hfits : (5 : Int) < 2 ^ v.bits := by
      exact_mod_cast hbits.trans Nat.lt_two_pow_self
    rw [hlayout]
    intro entry hentry
    cases List.mem_singleton.1 hentry
    refine ⟨"5", v, rfl, hv, ?_⟩
    simp only [Variable.Accepts, hdomain, hparse]
    rintro value ⟨⟩
    exact ⟨by decide, hfits⟩
  · intro instruction hok
    rw [hok] at hbuild
    cases hbuild

section

variable [Machine] {name : String} {data : Document} {set : InstructionSet} {rule : Rule}
  {operands : List String}

/-- How building an instruction of the operands of a line ends: with an instruction, with one of two
refusals in their own words, or with something that is too large to be shown or held. -/
inductive Outcome (arch : Arch) (rule : Rule) (operands : List String) :
    Except Fault Instruction → Prop
  | built (instruction : Instruction) : Outcome arch rule operands (.ok instruction)
  | notToken {token : String} {names : List String}
      (hmessage : (Fault.rejected (.notToken token names)).message =
        "Can't use '" ++ token ++ "' here, only one of: " ++ ", ".intercalate names) :
      Outcome arch rule operands (.error (.rejected (.notToken token names)))
  | tooWide {value : Int} {bits : Nat}
      (hmessage : (Fault.rejected (.tooWide value bits)).message =
        "Value " ++ Radix.decimal value ++ " does not fit in " ++ Radix.decimal bits ++ " bits") :
      Outcome arch rule operands (.error (.rejected (.tooWide value bits)))
  | unshown {value : Int} (hshown : Radix.hasDecimal value = false) :
      Outcome arch rule operands (.error .decimalTooLong)
  /-- The field of an entry cannot be held. -/
  | unheld {entry : Entry} {why : Excess} (hentry : entry ∈ rule.layout)
      (hheld : ¬entry.Held arch) : Outcome arch rule operands (.error (.excess why))
  /-- The number of the entries in front of one cannot be moved up by its bits. -/
  | unmoved {before after : List Entry} {entry : Entry} {fields : List Field} {why : Excess}
      (hlayout : rule.layout = before ++ entry :: after)
      (hfields : before.mapM (Field.ofEntry arch operands) = .ok fields)
      (hmoves : ¬Capacity.Moves (pack fields) (arch.bitsOf entry)) :
      Outcome arch rule operands (.error (.excess why))

theorem outcome_showing (arch : Arch) (rule : Rule) (operands : List String) (value : Int)
    (bits : Nat) : Outcome arch rule operands
      (.error (Fault.showing [value] (.rejected (.tooWide value bits)))) := by
  cases hshown : Radix.hasDecimal value with
  | true =>
    rw [Fault.showing, if_pos (by rw [List.all_cons, hshown, List.all_nil]; rfl)]
    exact .tooWide rfl
  | false =>
    rw [Fault.showing, if_neg (by rw [List.all_cons, hshown]; exact Bool.false_ne_true)]
    exact .unshown hshown

/-- A layout that is ended by an entry has one of the outcomes. -/
theorem outcome_of_ends {arch : Arch} {rule : Rule} {operands : List String}
    {before after : List Entry} {entry : Entry} (hlayout : rule.layout = before ++ entry :: after)
    {fault : Fault} (h : entry.Ends arch operands before fault) :
    Outcome arch rule operands (.error fault) := by
  have hentry : entry ∈ rule.layout := by
    rw [hlayout]
    exact List.mem_append_right before List.mem_cons_self
  cases h with
  | unmoved hfields hmoves => exact .unmoved hlayout hfields hmoves
  | refuses h =>
    cases entry with
    | bits digits =>
      obtain ⟨why, rfl, hbits⟩ := h
      refine .unheld hentry fun hheld => ?_
      rw [Entry.Held, hbits] at hheld
      cases hheld
    | operand index slot =>
      obtain ⟨token, v, -, hv, hrefuses⟩ := h
      cases hrefuses with
      | notToken _ _ => exact .notToken rfl
      | place _ _ _ => exact outcome_showing arch rule operands _ _
      | value _ _ _ _ => exact outcome_showing arch rule operands _ _
      | unheld hdomain hbits =>
        exact .unheld hentry fun hheld => Variable.not_held_of_fieldBits hdomain hbits (hheld v hv)

/-- What building an instruction of the operands of a line relies on, and how it ends. -/
structure Foreseen (arch : Arch) (rule : Rule) (operands : List String)
    (result : Except Fault Instruction) : Prop where
  source : rule.source ∈ arch.rules
  /-- Texts of the layout are of zeros and ones, and its numbers are places of slots. -/
  written : List.Forall₂ (Entry.Written rule.names) rule.source.bits rule.layout
  slots : ∀ index slot, .operand index slot ∈ rule.layout →
    index < operands.length ∧ rule.names[index]? = some slot ∧ ∃ v, arch.find? slot = some v
  outcome : Outcome arch rule operands result
  ends : ∀ fault, result = .error fault → ∃ before entry after,
    rule.layout = before ++ entry :: after ∧ entry.Ends arch operands before fault
  inRange : result ≠ .error .outOfRange
  known : ∀ token, result ≠ .error (.rejected (.unknownVariable token))
  supported : ∀ slot, result ≠ .error (.rejected (.unsupportedVariable slot))

/-- **A rule of an accepted document is ready for every line that it matches.**  Whatever its layout
refers to is there, and it fails only to refuse an operand, or for what is too large. -/
theorem build_captured (hset : InstructionSet.ofDocument name data = .ok set)
    (hrule : rule ∈ set.rules) {text : String} (hcaptures : rule.captures text = some operands)
    (address line : Int) :
    Foreseen set.arch rule operands (build set.arch rule operands address line) := by
  obtain ⟨source, hmem, hsource⟩ := exists_of_mem_mapM set.compiled hrule
  have harity := Rule.length_of_captures hsource hcaptures
  have hends : ∀ fault, build set.arch rule operands address line = .error fault →
      ∃ before entry after, rule.layout = before ++ entry :: after ∧
        entry.Ends set.arch operands before fault := by
    intro fault hbuild
    obtain ⟨before, entry, after, hlayout, -, -, hend⟩ := ends_of_build hset hrule harity hbuild
    exact ⟨before, entry, after, hlayout, hend⟩
  have houtcome : Outcome set.arch rule operands (build set.arch rule operands address line) := by
    cases hbuild : build set.arch rule operands address line with
    | ok instruction => exact .built instruction
    | error fault =>
      obtain ⟨before, entry, after, hlayout, hend⟩ := hends fault hbuild
      exact outcome_of_ends hlayout hend
  refine ⟨?_, ?_, fun _ _ => InstructionSet.slot_of_mem_layout hrule harity, houtcome, hends, ?_,
    ?_,
    ?_⟩
  · obtain ⟨-, layout, -, rfl⟩ := compile_iff.1 hsource
    exact hmem
  · obtain ⟨-, layout, hlayout, rfl⟩ := compile_iff.1 hsource
    exact (forall₂_of_mapM hlayout).imp fun _ _ => Entry.written_of_entryOf
  · intro hbuild
    rw [hbuild] at houtcome
    cases houtcome
  · intro token hbuild
    rw [hbuild] at houtcome
    cases houtcome
  · intro slot hbuild
    rw [hbuild] at houtcome
    cases houtcome

end

open UsualMachine in
theorem build_captured_toggle :
    ∃ set, InstructionSet.ofDocument "" Assembler.sampleLoads = .ok set ∧
      ∃ rule ∈ set.rules, ∃ operands, rule.captures "ld b , 5" = some operands ∧
        (build set.arch rule operands 0 1).toOption = none ∧
        Foreseen set.arch rule operands (build set.arch rule operands 0 1) := by
  have hruns : (InstructionSet.ofDocument "" Assembler.sampleLoads).toOption.any (fun set =>
      decide (∃ rule ∈ set.rules, ∃ operands ∈ rule.captures "ld b , 5",
        (build set.arch rule operands 0 1).toOption = none)) = true := by
    decide +kernel
  obtain ⟨set, hset, hset'⟩ := (Option.any_eq_true _ _).1 hruns
  obtain ⟨rule, hrule, operands, hcaptures, hbuild⟩ := of_decide_eq_true hset'
  exact ⟨set, Assembler.ok_of_toOption hset, rule, hrule, operands, hcaptures, hbuild,
    build_captured (Assembler.ok_of_toOption hset) hrule hcaptures 0 1⟩

open UsualMachine in
theorem not_rejected_overwide :
    ∃ set, InstructionSet.ofDocument "" sampleOverwide = .ok set ∧
      ∃ rule ∈ set.rules, ∃ operands, rule.captures "ld there" = some operands ∧
        (∀ instruction, build set.arch rule operands 0 0 ≠ .ok instruction) ∧
        ∀ rejection, build set.arch rule operands 0 0 ≠ .error (.rejected rejection) := by
  have hruns : (InstructionSet.ofDocument "" sampleOverwide).toOption.any (fun set =>
      decide (∃ rule ∈ set.rules, ∃ operands ∈ rule.captures "ld there",
        (build set.arch rule operands 0 0).mapError Fault.isLimit = .error true)) = true := by
    decide +kernel
  obtain ⟨set, hset, hset'⟩ := (Option.any_eq_true _ _).1 hruns
  obtain ⟨rule, hrule, operands, hcaptures, hbuild⟩ := of_decide_eq_true hset'
  refine ⟨set, Assembler.ok_of_toOption hset, rule, hrule, operands, hcaptures, ?_, ?_⟩
  · intro instruction hok
    rw [hok] at hbuild
    cases hbuild
  · intro rejection herror
    rw [herror] at hbuild
    cases hbuild

end Instruction

end Retarget
