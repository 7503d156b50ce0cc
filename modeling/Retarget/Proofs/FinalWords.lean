import Retarget.Proofs.Placement

/-!
# The final words of an emission

What an emission stands for once all symbols are known, said directly: the fields of an instruction
with their final values side by side, the numbers of a data line, the code points of a text.  No
field waits here and nothing is flipped.

`Placed.blank_xor_flips` shows that the words which were first written, with what the symbols flip
in them at the end, are these final words.
-/

namespace Retarget

/-! ## Operands and fixups -/

/-- The value of an operand: the place of a token, a number as written, or the value of a symbol. -/
def Encoding.operandValue (symbols : String → Option SymbolValue) (address : Int)
    (v : Variable) (token : String) : Nat :=
  match v.domain with
  | .tokens names => (tokenIndex? names token).getD 0
  | .number relative offset =>
    match Literal.parse token with
    | .ok n => n.toNat
    | .error _ => Pending.value symbols address ⟨token, relative, offset⟩ v.bits

/-- Filling the field that an operand gives to a variable gives it its final value. -/
theorem Field.Given.filled_eq {symbols : String → Option SymbolValue} {address : Int}
    {v : Variable} {token : String} {f : Field} (h : Given v token f) :
    f.filled (Pending.value symbols address) = Encoding.operandValue symbols address v token := by
  cases h with
  | token hdomain hplace _ =>
    simp only [Encoding.operandValue, hdomain, hplace]
    rfl
  | number hdomain hvalue _ =>
    simp only [Encoding.operandValue, hdomain, hvalue]
    rfl
  | symbol hdomain hvalue =>
    simp only [Encoding.operandValue, hdomain]
    cases hparse : Literal.parse token with
    | ok value => exact absurd hparse (hvalue value)
    | error fault => rfl

/-- The number that a token of a data line stands for: a literal for itself, anything else for the
number of the symbol, which is zero without one. -/
def dataNumber (symbols : String → Option SymbolValue) (token : String) : Int :=
  match Literal.parse token with
  | .ok n => n
  | .error _ => ((symbols (Text.lower token)).bind SymbolValue.toNumber?).getD 0

/-- A field without bits has the value zero. -/
theorem Pending.value_zero {symbols : String → Option SymbolValue} {address : Int} (p : Pending) :
    p.value symbols address 0 = 0 := by
  have := p.value_lt symbols address 0
  rwa [Nat.pow_zero, Nat.lt_one_iff] at this

theorem Pending.value_absolute (symbols : String → Option SymbolValue) (address other : Int)
    (sym : String) (bits : Nat) :
    Pending.value symbols address ⟨sym, false, 0⟩ bits =
      Pending.value symbols other ⟨sym, false, 0⟩ bits := by
  simp only [Pending.value, Bool.false_eq_true, if_false]

/-- What the fixups of fields are about. -/
theorem Instruction.mem_fixupsOf {address line : Int} {nbits bitofs : Nat} {fields : List Field}
    {fix : Fixup} (h : fix ∈ fixupsOf address line nbits bitofs fields) :
    fix.ofs = address ∧ fix.nbits = nbits ∧ ∃ f ∈ fields, fix.bitlen = f.bits := by
  induction fields generalizing bitofs with
  | nil => cases h
  | cons f rest ih =>
    rw [fixupsOf] at h
    rcases List.mem_append.1 h with h | h
    · split at h
      · cases h
      · cases List.mem_singleton.1 h
        exact ⟨rfl, rfl, f, List.mem_cons_self, rfl⟩
    · obtain ⟨hofs, hnbits, g, hg, hbits⟩ := ih h
      exact ⟨hofs, hnbits, g, List.mem_cons_of_mem f hg, hbits⟩

theorem Instruction.bits_le_lengthOf {fields : List Field} {f : Field} (h : f ∈ fields) :
    f.bits ≤ lengthOf fields := by
  induction fields with
  | nil => cases h
  | cons g rest ih =>
    rw [lengthOf_cons]
    rcases List.mem_cons.1 h with rfl | h
    · exact Nat.le_add_right _ _
    · exact Nat.le_trans (ih h) (Nat.le_add_left _ _)

theorem Fixup.span_of_length {fix : Fixup} {n : Nat} (h : fix.length = n) (hpos : 0 < n)
    {width : Int} (hwidth : 1 ≤ width) : fix.span width = wordsFor n width.toNat := by
  have hwords : wordsFor n width.toNat ≠ 0 := by
    rw [Ne, wordsFor_eq_zero (by omega)]
    omega
  rw [span, h, neg_fdiv_neg_eq_wordsFor n hwidth]
  omega

theorem Fixup.span_of_nbits {fix : Fixup} {nbits : Nat} (h : fix.nbits = nbits) (hpos : 0 < nbits)
    {width : Int} (hwidth : 1 ≤ width) : fix.span width = wordsFor nbits width.toNat := by
  refine span_of_length ?_ hpos hwidth
  rw [length, if_neg (by omega), h]

theorem wordsFor_self {width : Nat} (h : 0 < width) : wordsFor width width = 1 := by
  rw [wordsFor, show width + width - 1 = width - 1 + width by omega, Nat.add_div_right _ h,
    Nat.div_eq_of_lt (by omega)]

/-! ## Flips along a list -/

/-- The flips of a list of fixups at a place, all together. -/
theorem Words.flipsAt_flatMap {α : Type} (xs : List α) (flips : α → List (Nat × Nat)) (i : Nat) :
    flipsAt (xs.flatMap flips) i = Bits.xorAll (xs.map fun x => flipsAt (flips x) i) := by
  induction xs with
  | nil => rfl
  | cons x xs ih => rw [List.flatMap_cons, flipsAt_append, ih, List.map_cons, Bits.xorAll_cons]

theorem map_mapIdx {α β γ : Type} (xs : List α) (f : Nat → α → β) (g : β → γ) :
    (xs.mapIdx f).map g = xs.mapIdx fun j x => g (f j x) := by
  refine List.ext_getElem (by simp) fun j _ _ => ?_
  simp

theorem Bits.xorAll_filterMap {α β : Type} (xs : List α) (g : α → Option β) (f : β → Nat) :
    xorAll ((xs.filterMap g).map f) = xorAll (xs.map fun x => ((g x).map f).getD 0) := by
  induction xs with
  | nil => rfl
  | cons x xs ih =>
    rw [List.filterMap_cons, List.map_cons, xorAll_cons, ← ih]
    cases g x with
    | none => exact (Nat.zero_xor _).symm
    | some y => rfl

/-- Of numbers along a list that are zero but for one place, all flipped together leave that one. -/
theorem Bits.xorAll_mapIdx_single {α : Type} (xs : List α) (v : α → Nat) (k : Nat) :
    xorAll (xs.mapIdx fun j x => if j = k then v x else 0) = (xs[k]?.map v).getD 0 := by
  induction xs generalizing k with
  | nil => rfl
  | cons x xs ih =>
    rw [List.mapIdx_cons, xorAll_cons]
    cases k with
    | zero =>
      rw [if_pos rfl, xorAll_eq_zero, Nat.xor_zero]
      · rfl
      · intro n hn
        obtain ⟨j, hj, rfl⟩ := List.mem_mapIdx.1 hn
        exact if_neg (Nat.succ_ne_zero j)
    | succ k =>
      rw [if_neg (Nat.succ_ne_zero k).symm, Nat.zero_xor, List.getElem?_cons_succ, ← ih k]
      simp only [Nat.add_right_cancel_iff]

variable [Machine]

/-! ## What an emission stands for -/

namespace Encoding

variable (symbols : String → Option SymbolValue) (address : Int)

/-- The field of an entry of the layout: its bits and its final value. -/
def field (e : Encoding) : Entry → Nat × Nat
  | .bits digits => (digits.length, bitsValue digits)
  | .operand index name =>
    match e.operands[index]?, e.arch.find? name with
    | some token, some v => (v.bits, operandValue symbols address v token)
    | _, _ => (0, 0)

/-- The instruction as one number, all fields side by side. -/
def number (e : Encoding) : Nat :=
  Bits.concat (e.rule.layout.map (e.field symbols address))

end Encoding

/-- The final words of an emission. -/
def Placed.final (symbols : String → Option SymbolValue) (p : Placed) : List Nat :=
  match p.emission with
  | .code e => (List.range p.size).map fun k =>
      e.number symbols p.address / 2 ^ ((p.size - 1 - k) * p.width.toNat) % 2 ^ p.width.toNat
  | .data tokens => tokens.map fun token => (dataNumber symbols token % 2 ^ p.width.toNat).toNat
  | .text characters => characters.map fun c => c.toNat % 2 ^ p.width.toNat

@[simp] theorem Placed.length_final (symbols : String → Option SymbolValue) (p : Placed) :
    (p.final symbols).length = p.size := by
  rw [final]
  split
  · rw [List.length_map, List.length_range]
  · rename_i hp
    rw [size, hp, List.length_map]
  · rename_i hp
    rw [size, hp, List.length_map]

/-! ## Instructions -/

section Instructions

variable {symbols : String → Option SymbolValue} {address : Int}

/-- Filling the field that a rule gives to operands gives it its final value. -/
theorem Encoding.filled_of_ofEntry (e : Encoding) {entry : Entry} {f : Field}
    (h : Field.ofEntry e.arch e.operands entry = .ok f) :
    (f.bits, f.filled (Pending.value symbols address)) = e.field symbols address entry := by
  cases entry with
  | bits digits =>
    obtain ⟨-, rfl⟩ := Field.ofValue_eq_ok h
    rfl
  | operand index name =>
    obtain ⟨token, v, htoken, hname, hgiven⟩ := Field.given_of_ofEntry h
    simp only [field, htoken, hname, hgiven.bits_eq, hgiven.filled_eq]

/-- **The instruction with all fields filled** is what was packed and what the symbols flip in
it. -/
theorem Encoding.number_eq (e : Encoding) (line : Int) :
    e.number symbols address = Instruction.pack e.fields ^^^
      Bits.xorAll ((Instruction.fixupsOf address line e.nbits 0 e.fields).map
        fun fix => fix.patch symbols) := by
  have hfields : e.rule.layout.map (e.field symbols address) =
      e.fields.map fun f => (f.bits, f.filled (Pending.value symbols address)) :=
    (map_eq_of_mapM (fun _ _ => e.filled_of_ofEntry) e.built).symm
  have hlength : 0 + Instruction.lengthOf e.fields = e.nbits := by
    rw [Nat.zero_add, e.lengthOf_fields]
  rw [number, hfields,
    Instruction.concat_filled e.fields_sound
      (Pending.value_lt symbols address) address line hlength]
  congr 2
  refine List.map_congr_left fun fix hfix => ?_
  obtain ⟨hofs, hnbits, f, hf, hbits⟩ := Instruction.mem_fixupsOf hfix
  rw [Fixup.patch, hofs]
  -- A fixup of length zero takes its length from its field, which then has no bits either.
  by_cases hzero : fix.nbits = 0
  · have hle := Instruction.bits_le_lengthOf hf
    rw [e.lengthOf_fields] at hle
    rw [show fix.bitlen.toNat = 0 by omega, Pending.value_zero, Nat.mul_zero, Nat.mul_zero]
  · rw [Fixup.length, if_neg hzero]

/-- An instruction without bits has nothing that could be flipped. -/
theorem Encoding.patch_eq_zero {e : Encoding} (h : e.nbits = 0) {line : Int} {fix : Fixup}
    (hfix : fix ∈ Instruction.fixupsOf address line e.nbits 0 e.fields) :
    fix.patch symbols = 0 := by
  obtain ⟨-, -, f, hf, hbits⟩ := Instruction.mem_fixupsOf hfix
  have hle := Instruction.bits_le_lengthOf hf
  rw [e.lengthOf_fields] at hle
  rw [Fixup.patch, show fix.bitlen.toNat = 0 by omega, Pending.value_zero, Nat.mul_zero]

end Instructions

namespace Placed

variable {symbols : String → Option SymbolValue} {p : Placed}

theorem size_code {e : Encoding} (hp : p.emission = .code e) :
    p.size = wordsFor e.nbits p.width.toNat := by
  rw [size, hp]

theorem fixups_code {e : Encoding} (hp : p.emission = .code e) :
    p.fixups = Instruction.fixupsOf p.address p.line e.nbits 0 e.fields := by
  rw [fixups, hp]

theorem nbits_pos_of_code {e : Encoding} (hp : p.emission = .code e) (hwidth : 1 ≤ p.width)
    (h : 0 < p.size) : 0 < e.nbits := by
  rw [size_code hp] at h
  refine Nat.pos_of_ne_zero fun hzero => ?_
  rw [(wordsFor_eq_zero (by omega)).2 hzero] at h
  exact Nat.lt_irrefl 0 h

/-- What the symbols flip at a word of an instruction. -/
theorem flipsAt_code {e : Encoding} (hp : p.emission = .code e) (hwidth : 1 ≤ p.width)
    (horigin : p.origin ≤ p.address) {k : Nat} (hk : k < p.size) :
    Words.flipsAt (p.flips symbols p.origin p.width) (p.base + k) =
      wordAt p.width.toNat p.size
        (Bits.xorAll ((Instruction.fixupsOf p.address p.line e.nbits 0 e.fields).map
        fun fix => fix.patch symbols) : Nat) k := by
  -- With at least one bit, each fixup spans the words of the whole instruction.
  have hpos := nbits_pos_of_code hp hwidth (Nat.zero_lt_of_lt hk)
  rw [flips, Words.flipsAt_flatMap, wordAt_xorAll, List.map_map, fixups_code hp]
  congr 1
  refine List.map_congr_left fun fix hfix => ?_
  obtain ⟨hofs, hnbits, -⟩ := Instruction.mem_fixupsOf hfix
  have hspan : fix.span p.width = p.size := by
    rw [Fixup.span_of_nbits hnbits hpos hwidth, size_code hp]
  have hflips := Fixup.flipsAt_flips symbols p.width (hofs.symm ▸ horigin : p.origin ≤ fix.ofs)
    (hspan.symm ▸ hk : k < fix.span p.width)
  rw [hofs, hspan] at hflips
  exact hflips

/-- The final words of an instruction are those written first and what the symbols flip. -/
theorem blank_xor_flips_code {e : Encoding} (hp : p.emission = .code e) (hwidth : 1 ≤ p.width)
    (horigin : p.origin ≤ p.address) {k : Nat} (hk : k < p.size) :
    p.blank[k]?.map (· ^^^ Words.flipsAt (p.flips symbols p.origin p.width) (p.base + k)) =
      (p.final symbols)[k]? := by
  have hblank : p.blank[k]? = some (wordAt p.width.toNat p.size (Instruction.pack e.fields) k) := by
    simp only [blank, hp]
    rw [splitWords, List.getElem?_map, List.getElem?_range hk, Option.map_some]
  have hfinal : (p.final symbols)[k]? =
      some (wordAt p.width.toNat p.size (e.number symbols p.address : Nat) k) := by
    simp only [final, hp]
    rw [List.getElem?_map, List.getElem?_range hk, Option.map_some, wordAt_natCast]
  rw [hblank, hfinal, Option.map_some, flipsAt_code hp hwidth horigin hk, e.number_eq p.line,
    wordAt_xor]

end Placed

/-! ## Data and text -/

namespace Placed

variable {symbols : String → Option SymbolValue} {p : Placed}

theorem place_dataFixup (horigin : p.origin ≤ p.address) (j : Nat) (token : String) :
    ((p.dataFixup j token).ofs - p.origin).toNat = p.base + j := by
  show (p.address + (j : Int) - p.origin).toNat = (p.address - p.origin).toNat + j
  omega

theorem span_dataFixup (hwidth : 1 ≤ p.width) (j : Nat) (token : String) :
    (p.dataFixup j token).span p.width = 1 := by
  have hnbits : (p.dataFixup j token).nbits = (p.width.toNat : Nat) := by
    show p.width = (p.width.toNat : Int)
    omega
  rw [Fixup.span_of_nbits hnbits (by omega) hwidth, wordsFor_self (by omega)]

/-- What a symbol flips in the words of a data line: its number, at its own word only. -/
theorem flipsAt_dataFixup (hwidth : 1 ≤ p.width) (horigin : p.origin ≤ p.address) (j k : Nat)
    (token : String) :
    Words.flipsAt ((p.dataFixup j token).flips symbols p.origin p.width) (p.base + k) =
      if j = k then Pending.value symbols p.address
        ⟨Text.lower token, false, 0⟩ p.width.toNat else 0 := by
  have hofs : p.origin ≤ (p.dataFixup j token).ofs := by
    show p.origin ≤ p.address + (j : Int)
    omega
  have hplace := place_dataFixup horigin j token
  have hspan := span_dataFixup hwidth j token
  by_cases hjk : j = k
  · subst hjk
    have hflips := Fixup.flipsAt_flips symbols p.width hofs
      (show 0 < (p.dataFixup j token).span p.width by omega)
    rw [hplace, hspan, Nat.add_zero] at hflips
    have hlength : (p.dataFixup j token).length = p.width := by
      rw [Fixup.length]
      exact if_neg (show p.width ≠ 0 by omega)
    have hpatch : (p.dataFixup j token).patch symbols =
        Pending.value symbols p.address ⟨Text.lower token, false, 0⟩ p.width.toNat := by
      rw [Fixup.patch, hlength]
      show 2 ^ (p.width - 0 - p.width).toNat * Pending.value symbols (p.address + (j : Int)) _ _ = _
      rw [show p.width - 0 - p.width = 0 by omega, Int.toNat_zero, Nat.pow_zero, Nat.one_mul]
      exact Pending.value_absolute symbols _ p.address _ _
    rw [hflips, if_pos rfl, hpatch, wordAt_natCast, Nat.sub_self, Nat.zero_mul, Nat.pow_zero,
      Nat.div_one, Nat.mod_eq_of_lt (Pending.value_lt _ _ _ _)]
  · rw [if_neg hjk]
    refine Words.flipsAt_eq_zero fun f hf => ?_
    obtain ⟨-, i, hi, hfi, -⟩ := Fixup.mem_flips hf
    omega

theorem fixups_data {tokens : List String} (hp : p.emission = .data tokens) :
    p.fixups = (tokens.mapIdx fun place token => (place, token)).filterMap fun (place, token) =>
      if Literal.isLiteral token then none else some (p.dataFixup place token) := by
  rw [fixups, hp]
  rfl

/-- What the symbols flip at a word of a data line. -/
theorem flipsAt_data {tokens : List String} (hp : p.emission = .data tokens) (hwidth : 1 ≤ p.width)
    (horigin : p.origin ≤ p.address) {k : Nat} {token : String} (hk : tokens[k]? = some token) :
    Words.flipsAt (p.flips symbols p.origin p.width) (p.base + k) =
      if Literal.isLiteral token then 0
      else Pending.value symbols p.address ⟨Text.lower token, false, 0⟩ p.width.toNat := by
  rw [flips, Words.flipsAt_flatMap, fixups_data hp, Bits.xorAll_filterMap, map_mapIdx]
  -- Of all the words of the line only the one at the place is flipped there.
  have hterm : (fun (j : Nat) (t : String) => (((if Literal.isLiteral t then none
      else some (p.dataFixup j t)).map fun fix =>
        Words.flipsAt (Fixup.flips symbols p.origin p.width fix) (p.base + k)).getD 0)) =
      fun j t => if j = k then (if Literal.isLiteral t then 0
        else Pending.value symbols p.address ⟨Text.lower t, false, 0⟩ p.width.toNat) else 0 := by
    funext j t
    by_cases ht : Literal.isLiteral t = true
    · simp only [ht, if_true, Option.map_none, Option.getD_none, ite_self]
    · simp only [ht, Bool.false_eq_true, if_false, Option.map_some, Option.getD_some]
      exact flipsAt_dataFixup hwidth horigin j k t
  refine (congrArg (fun f => Bits.xorAll (tokens.mapIdx f)) hterm).trans ?_
  rw [Bits.xorAll_mapIdx_single, hk]
  rfl

/-- The final words of a data line are those written first and what the symbols flip. -/
theorem blank_xor_flips_data {tokens : List String} (hp : p.emission = .data tokens)
    (hwidth : 1 ≤ p.width) (horigin : p.origin ≤ p.address) {k : Nat} (hk : k < tokens.length) :
    p.blank[k]?.map (· ^^^ Words.flipsAt (p.flips symbols p.origin p.width) (p.base + k)) =
      (p.final symbols)[k]? := by
  have htoken := List.getElem?_eq_getElem hk
  simp only [blank, final, hp]
  rw [List.getElem?_map, List.getElem?_map, htoken, Option.map_some, Option.map_some,
    Option.map_some, flipsAt_data hp hwidth horigin htoken, Literal.isLiteral, Assembler.dataValue,
    dataNumber]
  generalize tokens[k] = token
  rcases Literal.parse token with fault | n
  · -- A symbol is written as zero first, so its word is what is flipped.
    show some (Bits.low p.width.toNat 0 ^^^ Pending.value symbols p.address
        ⟨Text.lower token, false, 0⟩ _) =
      some ((((symbols (Text.lower token)).bind SymbolValue.toNumber?).getD 0 %
        2 ^ p.width.toNat).toNat)
    rw [Bits.low_eq, Int.zero_emod, Int.toNat_zero, Nat.zero_xor, Pending.value]
    rcases (symbols (Text.lower token)).bind SymbolValue.toNumber? with _ | n
    · rw [Option.getD_none, Int.zero_emod, Int.toNat_zero]
    · rfl
  · show some (Bits.low p.width.toNat n ^^^ 0) = some ((n % 2 ^ p.width.toNat).toNat)
    rw [Nat.xor_zero, Bits.low_eq]

/-- **The final words of an emission are those written first and what the symbols flip.** -/
theorem blank_xor_flips (hwidth : 1 ≤ p.width) (horigin : p.origin ≤ p.address) {k : Nat}
    (hk : k < p.size) :
    p.blank[k]?.map (· ^^^ Words.flipsAt (p.flips symbols p.origin p.width) (p.base + k)) =
      (p.final symbols)[k]? := by
  rcases hp : p.emission with e | tokens | characters
  · exact blank_xor_flips_code hp hwidth horigin hk
  · rw [size, hp] at hk
    exact blank_xor_flips_data hp hwidth horigin hk
  · have hflips : p.flips symbols p.origin p.width = [] := by
      rw [flips, fixups, hp]
      rfl
    simp only [hflips, Words.flipsAt_nil, Nat.xor_zero, Option.map_id', blank, final, hp,
      Bits.low_natCast]

/-! ## Where the flips are -/

/-- The symbols flip words of the emission only. -/
theorem mem_flips (hwidth : 1 ≤ p.width) (horigin : p.origin ≤ p.address) {f : Nat × Nat}
    (h : f ∈ p.flips symbols p.origin p.width) : ∃ k < p.size, f.1 = p.base + k := by
  obtain ⟨fix, hfix, hf⟩ := List.mem_flatMap.1 h
  obtain ⟨hle, k, hk, hplace, hne, hbits⟩ := Fixup.mem_flips hf
  rcases hp : p.emission with e | tokens | characters
  · rw [fixups_code hp] at hfix
    obtain ⟨hofs, hnbits, -⟩ := Instruction.mem_fixupsOf hfix
    have hpos : 0 < e.nbits := by
      refine Nat.pos_of_ne_zero fun hzero => hne ?_
      rw [hbits, Encoding.patch_eq_zero hzero hfix]
      exact wordAt_zero _ _ _
    rw [Fixup.span_of_nbits hnbits hpos hwidth, ← size_code hp] at hk
    refine ⟨k, hk, ?_⟩
    rw [hplace, hofs]
    rfl
  · rw [fixups_data hp] at hfix
    obtain ⟨⟨j, token⟩, hmem, hfix⟩ := List.mem_filterMap.1 hfix
    obtain ⟨i, hi, hpair⟩ := List.mem_mapIdx.1 hmem
    cases hpair
    simp only at hfix
    split at hfix
    · cases hfix
    · cases hfix
      rw [span_dataFixup hwidth] at hk
      rw [place_dataFixup horigin] at hplace
      refine ⟨j, ?_, by omega⟩
      rw [size, hp]
      exact hi
  · rw [fixups, hp] at hfix
    cases hfix

/-- An emission without words has nothing that could be flipped, wherever the image starts. -/
theorem flips_of_size_eq_zero (hwidth : 1 ≤ p.width) (h : p.size = 0) (origin width : Int) :
    p.flips symbols origin width = [] := by
  rcases hp : p.emission with e | tokens | characters
  · rw [size_code hp, wordsFor_eq_zero (by omega)] at h
    rw [flips, fixups_code hp, List.flatMap_eq_nil_iff]
    exact fun fix hfix => Fixup.flips_of_patch_eq_zero (Encoding.patch_eq_zero h hfix)
  · rw [size, hp, List.length_eq_zero_iff] at h
    rw [flips, fixups_data hp, h]
    rfl
  · rw [flips, fixups, hp]
    rfl

end Placed

end Retarget
