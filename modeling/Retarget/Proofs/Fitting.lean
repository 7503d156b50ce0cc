import Retarget.Proofs.Reordering

/-!
# Values that fit a field

A value that is put into a field of `n` bits is cut to its low `n` bits.  It is told to be too wide
unless it lies between `-(2 ^ n - 1)` and `2 ^ n - 1`.  A field of `n` bits stands for fewer numbers
than that: those from `-2 ^ (n - 1)` on, read with or without a sign (`Bits.standsFor_low_iff`).  A
value below, although nothing is told of it, is read as another number.

`Resolution.resolveAll_fitted` says this of a fixup in the middle of a list.  Its field is read from
the image after all fixups are resolved, where no other fixup of the list shares a bit with it.
-/

namespace Retarget

/-! ## Reading numbers with and without a sign -/

namespace Bits

variable {bits : Nat} {v : Int}

/-- Whether a field of this many bits stands for a number, read without a sign or in two's
complement. -/
def StandsFor (bits field : Nat) (v : Int) : Prop :=
  (field : Int) = v ∨ (BitVec.ofNat bits field).toInt = v

theorem natCast_low (bits : Nat) (v : Int) : (low bits v : Int) = v % 2 ^ bits := by
  have hpos : (0 : Int) < 2 ^ bits := Int.pow_pos (by decide)
  rw [low_eq, Int.toNat_of_nonneg (Int.emod_nonneg v (Int.ne_of_gt hpos))]

/-- A number of two's complement: the upper half of the fields are negative numbers. -/
theorem toInt_ofNat_of_lt {field : Nat} (h : field < 2 ^ bits) :
    (BitVec.ofNat bits field).toInt =
      if 2 * field < 2 ^ bits then (field : Int) else (field : Int) - 2 ^ bits := by
  rw [BitVec.toInt_eq_toNat_cond, BitVec.toNat_ofNat, Nat.mod_eq_of_lt h, Int.natCast_pow]
  rfl

/-- The low bits of a value that is not told to be too wide: only a negative one is moved, by one
whole turn. -/
theorem natCast_low_of_natAbs_lt (h : v.natAbs < 2 ^ bits) :
    (low bits v : Int) = if v < 0 then v + 2 ^ bits else v := by
  have hcast : ((2 ^ bits : Nat) : Int) = 2 ^ bits := Int.natCast_pow 2 bits
  rw [natCast_low]
  split
  · rw [← Int.add_emod_right, Int.emod_eq_of_lt (by omega) (by omega)]
  · rw [Int.emod_eq_of_lt (by omega) (by omega)]

/-- **Which values a field stands for**, of those that are not told to be too wide: all but the
negative ones that have no place in two's complement. -/
theorem standsFor_low_iff (hbits : 1 ≤ bits) (h : v.natAbs < 2 ^ bits) :
    StandsFor bits (low bits v) v ↔ -2 ^ (bits - 1) ≤ v := by
  have hcast : ((2 ^ bits : Nat) : Int) = 2 ^ bits := Int.natCast_pow 2 bits
  have hhalf : (2 : Int) ^ bits = 2 * 2 ^ (bits - 1) := by
    rw [← Int.pow_succ', Nat.sub_add_cancel hbits]
  have hlow := natCast_low_of_natAbs_lt h
  rw [StandsFor, toInt_ofNat_of_lt (low_lt bits v)]
  generalize low bits v = field at hlow ⊢
  split at hlow <;> split <;> omega

/-- A value that its field does not stand for is read as the same other number in both ways. -/
theorem low_of_lt (hbits : 1 ≤ bits) (h : v.natAbs < 2 ^ bits) (hlow : v < -2 ^ (bits - 1)) :
    (low bits v : Int) = v + 2 ^ bits ∧ (BitVec.ofNat bits (low bits v)).toInt = v + 2 ^ bits := by
  have hcast : ((2 ^ bits : Nat) : Int) = 2 ^ bits := Int.natCast_pow 2 bits
  have hhalf : (2 : Int) ^ bits = 2 * 2 ^ (bits - 1) := by
    rw [← Int.pow_succ', Nat.sub_add_cancel hbits]
  have hneg : v < 0 := by
    have hpos : (0 : Int) < 2 ^ (bits - 1) := Int.pow_pos (by decide)
    omega
  have hvalue := natCast_low_of_natAbs_lt h
  rw [if_pos hneg] at hvalue
  refine ⟨hvalue, ?_⟩
  rw [toInt_ofNat_of_lt (low_lt bits v), if_pos (by omega), hvalue]

end Bits

/-- A word as far as the width goes, after bits of it were flipped. -/
theorem Words.get_flipAll_mod {width : Nat} {flips : List (Nat × Nat)}
    (hflips : ∀ f ∈ flips, f.2 < 2 ^ width) (words : Array Nat) (i : Nat) :
    get (flipAll width flips words) i % 2 ^ width =
      get words i % 2 ^ width ^^^ flipsAt flips i := by
  rw [get_flipAll_eq hflips]
  split
  · exact Nat.mod_eq_of_lt
      (Nat.xor_lt_two_pow (Nat.mod_lt _ (Nat.two_pow_pos width)) (flipsAt_lt hflips i))
  · rename_i hnone
    rw [flipsAt_eq_zero fun f hf hplace => hnone (List.any_eq_true.2 ⟨f, hf, beq_iff_eq.2 hplace⟩),
      Nat.xor_zero]

/-! ## Words of numbers elsewhere -/

/-- A bit of a word of a number. -/
theorem testBit_wordAt (width count n k i : Nat) :
    (wordAt width count (n : Int) k).testBit i =
      (decide (i < width) && n.testBit ((count - 1 - k) * width + i)) := by
  rw [wordAt_natCast, Nat.testBit_mod_two_pow, Nat.testBit_div_two_pow, Nat.add_comm]

/-- The low `bits` bits of a number that is moved up by `up` bits, or down if `up` is negative. -/
def Bits.moved (n : Nat) (up : Int) (bits : Nat) : Nat :=
  n * 2 ^ up.toNat / 2 ^ (-up).toNat % 2 ^ bits

/-- A bit of a number that is moved up or down. -/
theorem Bits.testBit_moved (n : Nat) (up : Int) (bits i : Nat) :
    (Bits.moved n up bits).testBit i =
      (decide (i < bits) && (decide (up ≤ i) && n.testBit ((i : Int) - up).toNat)) := by
  rw [moved, Nat.testBit_mod_two_pow, Nat.testBit_div_two_pow, Nat.mul_comm,
    Nat.testBit_two_pow_mul]
  congr 2
  · rw [decide_eq_decide]
    omega
  · congr 1
    omega

/-! ## The field of a fixup -/

namespace Fixup

variable {symbols : String → Option SymbolValue} {fix other : Fixup} {image : Image}

/-- The field of a fixup in an image.  Words are read as far as the width of the image goes. -/
def fieldIn (fix : Fixup) (image : Image) : Nat :=
  fix.fieldOf (Radix.value (2 ^ image.width.toNat) ((List.range (fix.span image.width)).map fun k =>
    Words.get image.words (image.place fix.ofs + k) % 2 ^ image.width.toNat))

/-- Whether flips change the words of an instruction as a number does that has nothing in the field
of the fixup, and is no longer than the words. -/
def Spared (fix : Fixup) (image : Image) (flips : List (Nat × Nat)) : Prop :=
  ∃ patch < 2 ^ (fix.span image.width * image.width.toNat), fix.fieldOf patch = 0 ∧
    ∀ k < fix.span image.width, Words.flipsAt flips (image.place fix.ofs + k) =
      wordAt image.width.toNat (fix.span image.width) patch k

theorem fieldOf_zero (fix : Fixup) : fix.fieldOf 0 = 0 := by
  rw [fieldOf, Nat.zero_div, Nat.zero_mod]

theorem Spared.nil : fix.Spared image [] := by
  refine ⟨0, Nat.two_pow_pos _, fix.fieldOf_zero, ?_⟩
  intro k _
  exact (wordAt_zero _ _ k).symm

theorem Spared.append {flips flips' : List (Nat × Nat)} (h : fix.Spared image flips)
    (h' : fix.Spared image flips') : fix.Spared image (flips ++ flips') := by
  obtain ⟨m, hm, hfield, hwords⟩ := h
  obtain ⟨n, hn, hfield', hwords'⟩ := h'
  refine ⟨m ^^^ n, Nat.xor_lt_two_pow hm hn, ?_, ?_⟩
  · rw [fieldOf_xor, hfield, hfield', Nat.zero_xor]
  · intro k hk
    rw [Words.flipsAt_append, hwords k hk, hwords' k hk, wordAt_xor]

theorem Spared.flatMap {α : Type} {xs : List α} {flips : α → List (Nat × Nat)}
    (h : ∀ x ∈ xs, fix.Spared image (flips x)) : fix.Spared image (xs.flatMap flips) := by
  induction xs with
  | nil => exact .nil
  | cons x rest ih =>
    obtain ⟨hx, hrest⟩ := List.forall_mem_cons.1 h
    exact hx.append (ih hrest)

/-- The place behind the last bit of a field, counted in bits from address zero on. -/
def endBit (fix : Fixup) (width : Int) : Int :=
  (fix.ofs + fix.span width) * width - fix.behind

/-- The place of the first bit of a field. -/
def firstBit (fix : Fixup) (width : Int) : Int :=
  fix.endBit width - fix.bitlen

/-- The number that another fixup flips, as a number of the words of this one. -/
def seenBy (fix other : Fixup) (width : Int) (n : Nat) : Nat :=
  Bits.moved n ((fix.ofs + fix.span width - (other.ofs + other.span width)) * width)
    (fix.span width * width.toNat)

/-- A number of a field that is apart from this one has nothing in this one. -/
theorem fieldOf_seenBy {width : Int} {value : Nat} (hfix : fix.Inside) (hother : other.Inside)
    (hvalue : value < 2 ^ other.bitlen.toNat)
    (h : other.endBit width ≤ fix.firstBit width ∨ fix.endBit width ≤ other.firstBit width) :
    fix.fieldOf (fix.seenBy other width (2 ^ other.behind * value)) = 0 := by
  have hbitlen := hfix.bitlen
  have hbitlen' := hother.bitlen
  refine Nat.eq_of_testBit_eq fun i => ?_
  rw [fieldOf, Nat.testBit_mod_two_pow, Nat.testBit_div_two_pow, seenBy, Bits.testBit_moved,
    Nat.testBit_two_pow_mul, Nat.zero_testBit]
  simp only [firstBit, endBit] at h
  rw [Int.sub_mul]
  generalize (fix.ofs + fix.span width) * width = here at h ⊢
  generalize (other.ofs + other.span width) * width = there at h ⊢
  refine Bool.eq_false_iff.2 fun hbit => ?_
  simp only [Bool.and_eq_true, decide_eq_true_eq] at hbit
  obtain ⟨hi, -, hup, hlow, hbit⟩ := hbit
  -- The bit would be one of both fields.
  have hhigh : (((i + fix.behind : Nat) : Int) - (here - there)).toNat - other.behind <
      other.bitlen.toNat := by
    by_contra hle
    rw [Nat.testBit_lt_two_pow (Nat.lt_of_lt_of_le hvalue
      (Nat.pow_le_pow_right Nat.two_pos (Nat.le_of_not_lt hle)))] at hbit
    cases hbit
  omega

/-- The words of a number that another fixup flips, where they are words of this one. -/
theorem wordAt_seenBy {width : Int} (hwidth : 1 ≤ width) {n : Nat}
    (hn : n < 2 ^ (other.span width * width.toNat)) {k : Nat} (hk : k < fix.span width) :
    wordAt width.toNat (fix.span width) (fix.seenBy other width n) k =
      if other.ofs ≤ fix.ofs + k ∧ fix.ofs + k < other.ofs + other.span width then
        wordAt width.toNat (other.span width) n (fix.ofs + k - other.ofs).toNat
      else 0 := by
  obtain ⟨w, rfl⟩ := Int.eq_ofNat_of_zero_le (show 0 ≤ width by omega)
  simp only [Int.toNat_natCast] at hn ⊢
  -- Counted from the end of the other number, the words of this one come at these places.
  have hplace : ∀ i : Nat, (((fix.span w - 1 - k) * w + i : Nat) : Int) -
      (fix.ofs + fix.span w - (other.ofs + other.span w)) * w =
        (other.ofs + other.span w - 1 - (fix.ofs + k)) * w + i := by
    intro i
    have hcast : ((fix.span w - 1 - k : Nat) : Int) = fix.span w - 1 - k := by omega
    rw [Int.natCast_add, Int.natCast_mul, hcast]
    ring
  refine Nat.eq_of_testBit_eq fun i => ?_
  rw [testBit_wordAt, seenBy, Bits.testBit_moved, hplace, Int.toNat_natCast]
  by_cases hi : i < w
  swap
  · split
    · simp [hi, testBit_wordAt]
    · simp [hi]
  have hlow : (fix.span w - 1 - k) * w + i < fix.span w * w := by
    calc (fix.span w - 1 - k) * w + i < (fix.span w - 1 - k) * w + w := by omega
      _ = (fix.span w - 1 - k + 1) * w := by ring
      _ ≤ fix.span w * w := Nat.mul_le_mul_right _ (by omega)
  rw [decide_eq_true hi, decide_eq_true hlow, Bool.true_and, Bool.true_and]
  split
  · rename_i hboth
    have hcast : (other.ofs + other.span w - 1 - (fix.ofs + k)) * w + i =
        (((other.span w - 1 - (fix.ofs + k - other.ofs).toNat) * w + i : Nat) : Int) := by
      have hcast : ((other.span w - 1 - (fix.ofs + k - other.ofs).toNat : Nat) : Int) =
          other.ofs + other.span w - 1 - (fix.ofs + k) := by omega
      rw [Int.natCast_add, Int.natCast_mul, hcast]
    have hup : (fix.ofs + fix.span w - (other.ofs + other.span w)) * w ≤
        (((fix.span w - 1 - k) * w + i : Nat) : Int) := by
      have := hplace i
      omega
    rw [testBit_wordAt, hcast, Int.toNat_natCast, decide_eq_true hi, decide_eq_true hup,
      Bool.true_and]
  · rename_i hneither
    rw [Nat.zero_testBit]
    refine Bool.eq_false_iff.2 fun hbit => hneither ?_
    rw [Bool.and_eq_true, decide_eq_true_eq] at hbit
    obtain ⟨hup, hbit⟩ := hbit
    have hnonneg : 0 ≤ (other.ofs + other.span w - 1 - (fix.ofs + k)) * w + i := by
      rw [← hplace]
      omega
    have hbelow : (other.ofs + other.span w - 1 - (fix.ofs + k)) * w + i < other.span w * w := by
      by_contra hle
      have hpos : other.span w * w ≤
          ((other.ofs + other.span w - 1 - (fix.ofs + k)) * w + i).toNat := by
        zify
        omega
      rw [Nat.testBit_lt_two_pow (Nat.lt_of_lt_of_le hn
        (Nat.pow_le_pow_right Nat.two_pos hpos))] at hbit
      cases hbit
    have hi : (i : Int) < w := by exact_mod_cast hi
    constructor
    · nlinarith
    · nlinarith

/-- Whether another fixup leaves the field alone: it is in other words, or its field shares no bit
with this one, wherever their instructions overlap. -/
inductive Clear (fix other : Fixup) (width : Int) : Prop where
  | before (h : other.ofs + other.span width ≤ fix.ofs)
  | behind (h : fix.ofs + fix.span width ≤ other.ofs)
  | apart (inside : other.Inside)
      (h : other.endBit width ≤ fix.firstBit width ∨ fix.endBit width ≤ other.firstBit width)

/-- Flips in other words change nothing in the words of the instruction. -/
theorem spared_of_outside {flips : List (Nat × Nat)}
    (h : ∀ f ∈ flips, f.1 < image.place fix.ofs ∨
      image.place fix.ofs + fix.span image.width ≤ f.1) : fix.Spared image flips := by
  refine ⟨0, Nat.two_pow_pos _, fix.fieldOf_zero, ?_⟩
  intro k hk
  refine (Words.flipsAt_eq_zero ?_).trans (wordAt_zero _ _ k).symm
  intro f hf
  have := h f hf
  omega

theorem Clear.spared (h : fix.Clear other image.width) (hfix : fix.Inside)
    (hwidth : 1 ≤ image.width) (horigin : image.origin ≤ fix.ofs) :
    fix.Spared image (other.flips symbols image.origin image.width) := by
  cases h with
  | before h =>
    refine spared_of_outside fun f hf => .inl ?_
    obtain ⟨hother, k, hk, hplace, -⟩ := mem_flips hf
    rw [hplace, Image.place]
    omega
  | behind h =>
    refine spared_of_outside fun f hf => .inr ?_
    obtain ⟨hother, k, hk, hplace, -⟩ := mem_flips hf
    rw [hplace, Image.place]
    omega
  | apart hother h =>
    by_cases hofs : image.origin ≤ other.ofs
    swap
    · rw [flips, if_pos (Int.not_le.1 hofs)]
      exact .nil
    have hvalue := other.pending.value_lt symbols other.ofs other.bitlen.toNat
    have hpatch : other.patch symbols < 2 ^ (other.span image.width * image.width.toNat) := by
      rw [patch, Nat.mul_comm]
      exact hother.lt_two_pow hwidth hvalue
    refine ⟨fix.seenBy other image.width (other.patch symbols), Nat.mod_lt _ (Nat.two_pow_pos _),
      fieldOf_seenBy hfix hother hvalue h, fun k hk => ?_⟩
    rw [wordAt_seenBy hwidth hpatch hk]
    split
    · rename_i hboth
      have hplace : image.place fix.ofs + k =
          (other.ofs - image.origin).toNat + (fix.ofs + k - other.ofs).toNat := by
        rw [Image.place]
        omega
      rw [hplace]
      exact flipsAt_flips symbols image.width hofs (by omega)
    · rename_i hneither
      refine Words.flipsAt_eq_zero fun f hf hplace => hneither ?_
      obtain ⟨-, j, hj, hother, -⟩ := mem_flips hf
      rw [hother, Image.place] at hplace
      omega

/-- Flips that spare the field, around those of a value that is put in, leave the value there. -/
theorem fieldIn_flipAll {before after : List (Nat × Nat)} {value : Nat} (hfix : fix.Inside)
    (hwidth : 1 ≤ image.width) (hvalue : value < 2 ^ fix.bitlen.toNat)
    (hbefore : fix.Spared image before) (hafter : fix.Spared image after)
    (hflips : ∀ f ∈ before ++ fix.row image.origin image.width value ++ after,
      f.2 < 2 ^ image.width.toNat) :
    fix.fieldIn (image.flipAll (before ++ fix.row image.origin image.width value ++ after)) =
      fix.fieldIn image ^^^ value := by
  obtain ⟨m, hm, hfield, hwords⟩ := hbefore
  obtain ⟨n, hn, hfield', hwords'⟩ := hafter
  have hput := hfix.lt_two_pow hwidth hvalue
  -- All flips together change the words of the instruction as one number does.
  have hget : ∀ k ∈ List.range (fix.span image.width),
      Words.get (image.flipAll (before ++ fix.row image.origin image.width value ++ after)).words
          (image.place fix.ofs + k) % 2 ^ image.width.toNat =
        Words.get image.words (image.place fix.ofs + k) % 2 ^ image.width.toNat ^^^
          wordAt image.width.toNat (fix.span image.width)
            (m ^^^ value * 2 ^ fix.behind ^^^ n : Nat) k := by
    intro k hk
    have hk := List.mem_range.1 hk
    have hrow := fix.flipsAt_of_row image.origin image.width value hk
    rw [Nat.mul_comm] at hrow
    show Words.get (Words.flipAll _ _ _) _ % _ = _
    rw [Words.get_flipAll_mod hflips, Words.flipsAt_append, Words.flipsAt_append, hwords k hk,
      hwords' k hk, wordAt_xor, wordAt_xor]
    exact congrArg (fun bits => _ ^^^ (_ ^^^ bits ^^^ _)) hrow
  have hnarrow : ∀ k < fix.span image.width,
      Words.get image.words (image.place fix.ofs + k) % 2 ^ image.width.toNat <
        2 ^ image.width.toNat :=
    fun k _ => Nat.mod_lt _ (Nat.two_pow_pos _)
  rw [fieldIn, Image.width_flipAll, Image.place_flipAll, List.map_congr_left hget,
    value_xor_wordAt hnarrow (Nat.xor_lt_two_pow (Nat.xor_lt_two_pow hm hput) hn), fieldOf_xor,
    fieldOf_xor, fieldOf_xor, hfield, hfield', fieldOf_self hvalue, Nat.zero_xor, Nat.xor_zero]
  rfl

theorem width_pos_of_apply [Machine] {value : Nat} {after : Image}
    (h : (fix.apply value).runFrom image = (.ok (), after)) : 1 ≤ image.width := by
  rcases hpatches : fix.patches image.width value with fault | patches
  · rw [Attempt.runFrom, Fixup.apply, hpatches] at h
    cases h
  · obtain ⟨hbits, -⟩ := patches_eq_ok hpatches
    obtain ⟨hnonneg, -⟩ := Capacity.fieldBits_eq_ok hbits
    rcases hcount : wordCount fix.length image.width with fault | count
    · rw [Fixup.patches, hcount] at hpatches
      cases hpatches
    · obtain ⟨hne, -⟩ := wordCount_eq_ok hcount
      omega

/-- What is told of a fixup whose value is too wide. -/
def tooWide (fix : Fixup) (v : Int) : Report :=
  ⟨.symbolTooWide fix.sym v fix.bitlen, fix.line⟩

/-- Whether the field of a fixup lies within its instruction, was emitted as zeros, and shares no
bit with another fixup. -/
structure Alone (image : Image) (others : List Fixup) (fix : Fixup) : Prop where
  inside : fix.Inside
  blank : fix.fieldIn image = 0
  clear : ∀ other ∈ others, fix.Clear other image.width

end Fixup

/-! ## Resolving -/

namespace Resolution

section

variable [Machine] {symbols : String → Option SymbolValue} {image : Image}
  {fixups before after : List Fixup}
  {fix : Fixup} {v : Int} {r r' : Resolution}

theorem width_pos_of_resolveAll (h : (resolveAll symbols fixups).runFrom r = (.ok (), r'))
    (hfix : fix ∈ fixups) (hfill : fix.judge symbols r.image.origin = .fill v) :
    1 ≤ r.image.width := by
  induction fixups generalizing r with
  | nil => cases hfix
  | cons first rest ih =>
    obtain ⟨u, t, hfirst, hrest⟩ := Attempt.runFrom_bind_eq_ok.1 h
    rcases List.mem_cons.1 hfix with rfl | hmem
    · rcases resolve_eq_ok hfirst with ⟨notice, hjudge, -⟩ | ⟨value, image, -, happly, -⟩
      · rw [hfill] at hjudge
        cases hjudge
      · exact Fixup.width_pos_of_apply happly
    · obtain ⟨himage, -⟩ := image_of_resolve hfirst
      rw [← Image.width_flipAll r.image, ← himage]
      refine ih hrest hmem ?_
      rw [himage]
      exact hfill

/-- A value is not told to be too wide exactly if its magnitude has no more bits than the field. -/
theorem tooWide_not_mem_iff
    (h : (resolveAll symbols fixups).runFrom { image := image } = (.ok (), r))
    (hfix : fix ∈ fixups) (hfill : fix.judge symbols image.origin = .fill v) :
    fix.tooWide v ∉ r.reports ↔ v.natAbs < 2 ^ fix.bitlen.toNat := by
  have hreports : r.reports = fixups.flatMap (Fixup.told symbols image.origin) :=
    reports_of_resolveAll h
  constructor
  · intro hquiet
    by_contra hwide
    have hover := Fixup.overflows_iff.2 (Nat.not_lt.1 hwide)
    refine hquiet ?_
    rw [hreports]
    refine List.mem_flatMap.2 ⟨fix, hfix, ?_⟩
    rw [Fixup.told, hfill]
    simp only [if_pos hover]
    exact List.mem_singleton.2 rfl
  · intro hfits htold
    rw [hreports] at htold
    obtain ⟨other, -, htold⟩ := List.mem_flatMap.1 htold
    -- Another fixup may tell the same, but only of the same value in as many bits.
    have hcomes := other.comes symbols image.origin
    generalize other.told symbols image.origin = reports at hcomes htold
    generalize other.counted symbols image.origin = count at hcomes
    cases hcomes with
    | below => cases List.mem_singleton.1 htold
    | unknown => cases List.mem_singleton.1 htold
    | textual => cases List.mem_singleton.1 htold
    | filled => cases htold
    | tooWide _ _ _ hwide =>
      have heq := List.mem_singleton.1 htold
      obtain ⟨-, hvalue, hbitlen⟩ := Notice.symbolTooWide.inj (congrArg Report.notice heq)
      rw [← hvalue, ← hbitlen] at hwide
      omega

/-- The field of a fixup that is alone holds the low bits of its value when all are resolved. -/
theorem fieldIn_of_resolveAll
    (h : (resolveAll symbols (before ++ fix :: after)).runFrom { image := image } = (.ok (), r))
    (hfill : fix.judge symbols image.origin = .fill v)
    (halone : fix.Alone image (before ++ after)) :
    fix.fieldIn r.image = Bits.low fix.bitlen.toNat v := by
  obtain ⟨horigin, hvalue⟩ := Fixup.value_of_fill hfill fix.bitlen.toNat
  have hwidth : 1 ≤ image.width :=
    width_pos_of_resolveAll h (List.mem_append_right _ List.mem_cons_self) hfill
  have hspared : ∀ other ∈ before ++ after,
      fix.Spared image (other.flips symbols image.origin image.width) :=
    fun other hother => (halone.clear other hother).spared halone.inside hwidth horigin
  have hflips : ∀ f ∈ (before ++ fix :: after).flatMap
      (Fixup.flips symbols image.origin image.width), f.2 < 2 ^ image.width.toNat := by
    intro f hf
    obtain ⟨other, -, hother⟩ := List.mem_flatMap.1 hf
    exact Fixup.flips_lt hother
  obtain ⟨himage, -⟩ := image_of_resolveAll h
  simp only at himage
  rw [List.flatMap_append, List.flatMap_cons, Fixup.flips_of_le horigin, hvalue,
    ← List.append_assoc] at himage hflips
  rw [himage, Fixup.fieldIn_flipAll halone.inside hwidth (Bits.low_lt _ v)
    (.flatMap fun other hother => hspared other (List.mem_append_left _ hother))
    (.flatMap fun other hother => hspared other (List.mem_append_right _ hother)) hflips,
    halone.blank, Nat.zero_xor]

/-- What has become of the value of a fixup when all fixups are resolved. -/
structure Fitted (image : Image) (others : List Fixup) (fix : Fixup) (v : Int) (r : Resolution) :
    Prop where
  /-- Nothing is told of a value exactly in this range. -/
  quiet : fix.tooWide v ∉ r.reports ↔
    -(2 ^ fix.bitlen.toNat - 1) ≤ v ∧ v ≤ 2 ^ fix.bitlen.toNat - 1
  stored : fix.Alone image others → (fix.fieldIn r.image : Int) = v % 2 ^ fix.bitlen.toNat
  /-- A value of which nothing is told can be read back, unless it is too low. -/
  read : fix.Alone image others → fix.tooWide v ∉ r.reports →
    (Bits.StandsFor fix.bitlen.toNat (fix.fieldIn r.image) v ↔ -2 ^ (fix.bitlen.toNat - 1) ≤ v)
  /-- One that is too low is read as another number. -/
  misread : fix.Alone image others → fix.tooWide v ∉ r.reports →
    v < -2 ^ (fix.bitlen.toNat - 1) →
      (fix.fieldIn r.image : Int) = v + 2 ^ fix.bitlen.toNat ∧
        (BitVec.ofNat fix.bitlen.toNat (fix.fieldIn r.image)).toInt = v + 2 ^ fix.bitlen.toNat

/-- **A value of which nothing is told is stored modulo the size of its field**, and can be read
back from there exactly if it is a number of the field, with or without a sign. -/
theorem resolveAll_fitted {value : SymbolValue} {n : Int}
    (hrun : (resolveAll symbols (before ++ fix :: after)).runFrom { image := image } = (.ok (), r))
    (hbitlen : 1 ≤ fix.bitlen) (hofs : image.origin ≤ fix.ofs)
    (hsym : symbols fix.sym = some value) (hnumber : value.toNumber? = some n) :
    Fitted image (before ++ after) fix (fix.adjust n) r := by
  have hfill : fix.judge symbols image.origin = .fill (fix.adjust n) := by
    rw [Fixup.judge, if_neg (Int.not_lt.2 hofs), hsym]
    simp only [hnumber]
  have hbits : 1 ≤ fix.bitlen.toNat := by omega
  have hquiet := tooWide_not_mem_iff hrun (List.mem_append_right _ List.mem_cons_self) hfill
  have hcast : ((2 ^ fix.bitlen.toNat : Nat) : Int) = 2 ^ fix.bitlen.toNat := Int.natCast_pow 2 _
  refine ⟨?_, ?_, ?_, ?_⟩
  · rw [hquiet]
    omega
  · intro halone
    rw [fieldIn_of_resolveAll hrun hfill halone, Bits.natCast_low]
  · intro halone htold
    rw [fieldIn_of_resolveAll hrun hfill halone]
    exact Bits.standsFor_low_iff hbits (hquiet.1 htold)
  · intro halone htold hlow
    rw [fieldIn_of_resolveAll hrun hfill halone]
    exact Bits.low_of_lt hbits (hquiet.1 htold) hlow

end

/-- An instruction of two words at 200. -/
def samplePage : Image :=
  { origin := 200, words := #[48, 0] }

/-- A field of the instruction for the distance from behind it. -/
def sampleBranch : Fixup :=
  { sym := "start", ofs := 200, bitlen := 8, bitofs := 8, line := 3, iprel := true, ipofs := 2,
    nbits := 16 }

/-- Four bits in front of that field. -/
def sampleCondition : Fixup :=
  { sym := "never", ofs := 200, bitlen := 4, bitofs := 4, line := 3, nbits := 16 }

/-- Symbols for the condition, and for a target at an address. -/
def sampleTarget (address : Int) : String → Option SymbolValue
  | "start" => some (.number address)
  | "never" => some (.number 5)
  | _ => none

open UsualMachine in
/-- The lowest distance of eight bits is stored beside another field, and read with a sign. -/
theorem resolveAll_fitted_lowest :
    sampleBranch.adjust 74 = -128 ∧ sampleBranch.Alone samplePage [sampleCondition] ∧
      ((resolveAll (sampleTarget 74) [sampleCondition, sampleBranch]).runFrom
        { image := samplePage }).2.image.words = #[53, 128] ∧
      Fitted samplePage [sampleCondition] sampleBranch (-128)
        ((resolveAll (sampleTarget 74) [sampleCondition, sampleBranch]).runFrom
          { image := samplePage }).2 := by
  have halone : sampleBranch.Alone samplePage [sampleCondition] := by
    refine ⟨by decide, by decide +kernel, List.forall_mem_singleton.2 ?_⟩
    exact .apart (by decide) (.inl (by decide))
  have hok : ((resolveAll (sampleTarget 74) [sampleCondition, sampleBranch]).runFrom
      { image := samplePage }).1.isOk = true := by decide +kernel
  have hrun : (resolveAll (sampleTarget 74) ([sampleCondition] ++ sampleBranch :: [])).runFrom
      { image := samplePage } = (.ok (), ((resolveAll (sampleTarget 74)
        [sampleCondition, sampleBranch]).runFrom { image := samplePage }).2) := by
    refine Prod.ext ?_ rfl
    rcases hresult : ((resolveAll (sampleTarget 74) [sampleCondition, sampleBranch]).runFrom
      { image := samplePage }).1 with fault | ⟨⟩
    · rw [hresult] at hok
      cases hok
    · exact hresult
  refine ⟨by decide, halone, by decide +kernel, ?_⟩
  exact resolveAll_fitted hrun (by decide) (by decide) rfl rfl

open UsualMachine in
/-- A distance of -202 is put into eight bits without a word, and is read as 54. -/
theorem not_standsFor_far :
    1 ≤ sampleBranch.bitlen ∧ sampleBranch.adjust 0 = -202 ∧
      ((resolveAll (sampleTarget 0) [sampleBranch]).runFrom { image := samplePage }).1.isOk = true ∧
      ((resolveAll (sampleTarget 0) [sampleBranch]).runFrom
        { image := samplePage }).2.resolved = 1 ∧
      ((resolveAll (sampleTarget 0) [sampleBranch]).runFrom
        { image := samplePage }).2.reports.isEmpty = true ∧
      ¬(-2 ^ (8 - 1) ≤ sampleBranch.adjust 0 ∧ sampleBranch.adjust 0 ≤ 2 ^ 8 - 1) ∧
      sampleBranch.fieldIn ((resolveAll (sampleTarget 0) [sampleBranch]).runFrom
        { image := samplePage }).2.image = 54 ∧
      ¬Bits.StandsFor 8 54 (sampleBranch.adjust 0) := by
  refine ⟨by decide, by decide, by decide +kernel, by decide +kernel, by decide +kernel, by decide,
    by decide +kernel, ?_⟩
  rintro (h | h)
  · revert h
    decide
  · revert h
    decide

end Resolution

end Retarget
