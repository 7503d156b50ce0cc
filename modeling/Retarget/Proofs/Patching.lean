import Retarget.Proofs.Decoding
import Retarget.Proofs.Limits

/-!
# Patching fields

A value is put into a field by flipping bits of the words of an instruction.  Read as one number,
the most significant word first, the words change by the value at the place of the field, and no
other word changes.  So putting the same value in twice undoes it, and values of two fields that do
not overlap are both there afterwards, in whichever order they were put in (`Fixup.apply_putsIn`).

All of this holds where the value can be put in at all (`Fixup.HeldIn`): its place in the
instruction and the words of the image can be held, and there is room for the words that change.
-/

namespace Retarget

/-! ## Words as one number -/

/-- Words are split off the number that they make. -/
theorem splitWords_value {width : Nat} {words : List Nat} (h : ∀ word ∈ words, word < 2 ^ width) :
    splitWords width words.length (Radix.value (2 ^ width) words) = words := by
  have hfields : ∀ field ∈ words.map fun word => (width, word), field.2 < 2 ^ field.1 := by
    intro field hfield
    obtain ⟨word, hword, rfl⟩ := List.mem_map.1 hfield
    exact h word hword
  have hslices := Bits.slices_concat hfields
  rw [List.map_map, List.map_map] at hslices
  rw [splitWords_eq_slices, Bits.value_eq_concat, ← List.map_const']
  simpa using hslices

/-- Flipping bits of all words flips them in the number that the words make. -/
theorem value_xor_wordAt {width count patch : Nat} {word : Nat → Nat}
    (hword : ∀ k < count, word k < 2 ^ width) (hpatch : patch < 2 ^ (count * width)) :
    Radix.value (2 ^ width)
        ((List.range count).map fun k => word k ^^^ wordAt width count patch k) =
      Radix.value (2 ^ width) ((List.range count).map word) ^^^ patch := by
  have hwords : ∀ w ∈ (List.range count).map word, w < 2 ^ width := by
    intro w hw
    obtain ⟨k, hk, rfl⟩ := List.mem_map.1 hw
    exact hword k (List.mem_range.1 hk)
  have hsplit := splitWords_value hwords
  have hvalue : ∀ n : Nat, Radix.value (2 ^ width) (splitWords width count n) =
      n % 2 ^ (count * width) := by
    intro n
    rw [splitWords_eq_slices, Bits.value_slices]
  rw [List.length_map, List.length_range] at hsplit
  have hlt := hvalue (Radix.value (2 ^ width) ((List.range count).map word))
  rw [hsplit] at hlt
  generalize Radix.value (2 ^ width) ((List.range count).map word) = n at hsplit hlt ⊢
  have hn : n < 2 ^ (count * width) := by
    rw [hlt]
    exact Nat.mod_lt _ (Nat.two_pow_pos _)
  -- The words of `n` are those that were given, so the flipped ones are those of `n ^^^ patch`.
  have hflipped : ((List.range count).map fun k => word k ^^^ wordAt width count patch k) =
      splitWords width count (n ^^^ patch : Nat) := by
    rw [splitWords] at hsplit ⊢
    apply List.map_congr_left
    intro k hk
    rw [wordAt_xor, List.map_inj_left.1 hsplit k hk]
  rw [hflipped, hvalue, Nat.mod_eq_of_lt (Nat.xor_lt_two_pow hn hpatch)]

namespace Image

variable {image after : Image} {flips : List (Nat × Nat)} {address : Int}

/-- The number that the words from an address on make, the most significant first. -/
def readNumber (image : Image) (address : Int) (count : Nat) : Except Fault Nat := do
  let words ← (List.range count).mapM fun (k : Nat) => image.read (address + k)
  .ok (Radix.value (2 ^ image.width.toNat) words)

/-- Behind the origin the words of a number are read. -/
theorem readNumber_of_le (h : image.origin ≤ address) (count : Nat) :
    image.readNumber address count = .ok (Radix.value (2 ^ image.width.toNat)
      ((List.range count).map fun k => Words.get image.words (image.place address + k))) := by
  have hread : ∀ k ∈ List.range count, image.read (address + (k : Nat)) =
      pure (Words.get image.words (image.place address + k)) := by
    intro k _
    rw [read_of_le (by omega), place, place, show (address + (k : Int) - image.origin).toNat =
      (address - image.origin).toNat + k by omega]
    rfl
  rw [readNumber, mapM_congr hread, List.mapM_pure]
  rfl

/-- Whether no word of an image has more bits than the words of the image should have. -/
def Narrow (image : Image) : Prop :=
  ∀ word ∈ image.words, word < 2 ^ image.width.toNat

/-- All words of a narrow image fit the width. -/
theorem Narrow.get_lt (h : image.Narrow) (i : Nat) :
    Words.get image.words i < 2 ^ image.width.toNat := by
  by_cases hi : i < image.words.size
  · rw [Words.get_eq_getElem hi]
    exact h _ (Array.getElem_mem hi)
  · rw [Words.get_of_size_le (Nat.le_of_not_lt hi)]
    exact Nat.two_pow_pos _

/-- Narrow flips flip the bits of the words of a narrow image. -/
theorem Narrow.get_flipAll (h : image.Narrow) (hflips : ∀ f ∈ flips, f.2 < 2 ^ image.width.toNat)
    (i : Nat) : Words.get (image.flipAll flips).words i =
      Words.get image.words i ^^^ Words.flipsAt flips i :=
  Words.get_flipAll hflips (h.get_lt i)

/-- Narrow flips keep an image narrow. -/
theorem Narrow.flipAll (h : image.Narrow) (hflips : ∀ f ∈ flips, f.2 < 2 ^ image.width.toNat) :
    (image.flipAll flips).Narrow := by
  intro word hword
  obtain ⟨i, hi, rfl⟩ := Array.mem_iff_getElem.1 hword
  rw [← Words.get_eq_getElem hi, h.get_flipAll hflips]
  exact Nat.xor_lt_two_pow (h.get_lt i) (Words.flipsAt_lt hflips i)

/-- Words are read alike where they are alike. -/
theorem read_congr (horigin : after.origin = image.origin)
    (hget : image.origin ≤ address → Words.get after.words (image.place address) =
      Words.get image.words (image.place address)) : after.read address = image.read address := by
  by_cases h : image.origin ≤ address
  · rw [read_of_le h, read_of_le (horigin ▸ h), ← hget h, place, place, horigin]
  · have hbelow := Int.not_le.1 h
    rw [read, read, index, index, horigin, if_pos hbelow]
    rfl

end Image

/-! ## Fields of a number -/

namespace Fixup

variable {fix other : Fixup} {image : Image} {value : Nat}

/-- How many bits of the instruction are behind the field. -/
def behind (fix : Fixup) : Nat :=
  (fix.length - fix.bitofs - fix.bitlen).toNat

/-- The field in the number of an instruction. -/
def fieldOf (fix : Fixup) (n : Nat) : Nat :=
  n / 2 ^ fix.behind % 2 ^ fix.bitlen.toNat

/-- Flipping a number flips the bits of its field. -/
theorem fieldOf_xor (fix : Fixup) (m n : Nat) :
    fix.fieldOf (m ^^^ n) = fix.fieldOf m ^^^ fix.fieldOf n := by
  simp only [fieldOf, Nat.xor_div_two_pow, Nat.xor_mod_two_pow]

/-- A value that is put at its place is the value of the field. -/
theorem fieldOf_self (h : value < 2 ^ fix.bitlen.toNat) :
    fix.fieldOf (value * 2 ^ fix.behind) = value := by
  rw [fieldOf, Nat.mul_div_cancel _ (Nat.two_pow_pos _), Nat.mod_eq_of_lt h]

/-- A value that fits its field stays in the field when it is put at its place. -/
theorem shifted_lt (h : value < 2 ^ fix.bitlen.toNat) :
    value * 2 ^ fix.behind < 2 ^ (fix.bitlen.toNat + fix.behind) := by
  rw [Nat.pow_add]
  exact Nat.mul_lt_mul_of_pos_right h (Nat.two_pow_pos _)

/-- Whether two fields are in the same instruction and do not overlap. -/
structure Apart (fix other : Fixup) : Prop where
  ofs : other.ofs = fix.ofs
  length : other.length = fix.length
  bits : fix.bitofs + fix.bitlen ≤ other.bitofs ∨ other.bitofs + other.bitlen ≤ fix.bitofs

theorem Apart.symm (h : fix.Apart other) : other.Apart fix :=
  ⟨h.ofs.symm, h.length.symm, h.bits.symm⟩

/-- A field has nothing of what is put into another one. -/
theorem Apart.fieldOf_eq_zero (h : fix.Apart other) (hfix : fix.Inside) (hother : other.Inside)
    (hvalue : value < 2 ^ fix.bitlen.toNat) : other.fieldOf (value * 2 ^ fix.behind) = 0 := by
  have hbitlen := hfix.bitlen
  have hbitlen' := hother.bitlen
  have hend := hfix.le_length
  have hend' := hother.le_length
  have hlength := h.length
  rcases h.bits with hbits | hbits
  · -- The other field is behind: what is above it is a multiple of all its values.
    have hsplit : fix.behind = other.behind + other.bitlen.toNat +
        (fix.behind - other.behind - other.bitlen.toNat) := by
      simp only [behind]
      omega
    rw [fieldOf, hsplit, Nat.pow_add, Nat.pow_add, Nat.mul_assoc,
      Nat.mul_left_comm, Nat.mul_div_cancel_left _ (Nat.two_pow_pos _), Nat.mul_left_comm]
    exact Nat.mul_mod_right _ _
  · -- The other field is in front: the value does not reach it.
    have hbelow : value * 2 ^ fix.behind < 2 ^ other.behind := by
      refine Nat.lt_of_lt_of_le (shifted_lt hvalue) (Nat.pow_le_pow_right Nat.two_pos ?_)
      simp only [behind]
      omega
    rw [fieldOf, Nat.div_eq_of_lt hbelow, Nat.zero_mod]

/-- Two fields of one instruction are in the same words. -/
theorem Apart.span_eq (h : fix.Apart other) (width : Int) : other.span width = fix.span width := by
  rw [span, span, h.length]

/-! ## Words of an instruction -/

/-- An instruction has room for what is put into a field of it. -/
theorem Inside.lt_two_pow (hfix : fix.Inside) {width : Int} (hwidth : 1 ≤ width)
    (hvalue : value < 2 ^ fix.bitlen.toNat) :
    value * 2 ^ fix.behind < 2 ^ (fix.span width * width.toNat) := by
  have hbitlen := hfix.bitlen
  have hbitofs := hfix.bitofs
  have hend := hfix.le_length
  obtain ⟨n, hn⟩ := Int.eq_ofNat_of_zero_le (show 0 ≤ fix.length by omega)
  have hspan := le_wordsFor_mul n (show 0 < width.toNat by omega)
  rw [← span_of_length hn (by omega) hwidth] at hspan
  refine Nat.lt_of_lt_of_le (shifted_lt hvalue) (Nat.pow_le_pow_right Nat.two_pos ?_)
  simp only [behind]
  omega

/-- Putting a value into a field changes the number of the instruction at the place of the field. -/
theorem readNumber_flipAll (hfix : fix.Inside) (hwidth : 1 ≤ image.width) (hnarrow : image.Narrow)
    (horigin : image.origin ≤ fix.ofs) (hvalue : value < 2 ^ fix.bitlen.toNat) {n : Nat}
    (hn : image.readNumber fix.ofs (fix.span image.width) = .ok n) :
    (image.flipAll (fix.row image.origin image.width value)).readNumber fix.ofs
        (fix.span image.width) = .ok (n ^^^ value * 2 ^ fix.behind) := by
  have hget : ∀ k ∈ List.range (fix.span image.width),
      Words.get (image.flipAll (fix.row image.origin image.width value)).words
          (image.place fix.ofs + k) =
        Words.get image.words (image.place fix.ofs + k) ^^^
          wordAt image.width.toNat (fix.span image.width) (value * 2 ^ fix.behind : Nat) k := by
    intro k hk
    rw [hnarrow.get_flipAll fun f => row_lt, Nat.mul_comm value]
    congr 1
    exact fix.flipsAt_of_row image.origin image.width value (List.mem_range.1 hk)
  rw [Image.readNumber_of_le horigin] at hn
  cases hn
  have horigin' : (image.flipAll (fix.row image.origin image.width value)).origin ≤ fix.ofs :=
    horigin
  rw [Image.readNumber_of_le horigin', Image.place_flipAll, Image.width_flipAll,
    List.map_congr_left hget]
  congr 1
  exact value_xor_wordAt (fun k _ => hnarrow.get_lt _) (hfix.lt_two_pow hwidth hvalue)

/-- Flips of the words of an instruction leave all other words alone. -/
theorem read_flipAll_of_outside {flips : List (Nat × Nat)}
    (hflips : flips ⊆ fix.row image.origin image.width value) (horigin : image.origin ≤ fix.ofs)
    {address : Int} (h : address < fix.ofs ∨ fix.ofs + fix.span image.width ≤ address) :
    (image.flipAll flips).read address = image.read address := by
  apply Image.read_congr (image.origin_flipAll flips)
  intro haddress
  have hnone : flips.any (·.1 == image.place address) = false := by
    rw [List.any_eq_false]
    intro f hf
    obtain ⟨k, hk, hplace, -⟩ := mem_row (hflips hf)
    rw [beq_iff_eq, hplace, Image.place]
    omega
  show Words.get (Words.flipAll _ _ _) _ = _
  rw [Words.get_flipAll_eq fun f hf => row_lt (hflips hf), hnone]
  rfl

/-! ## Putting values in -/

section

variable [Machine]

/-- Whether a field is held does not depend on the words of an image. -/
theorem HeldIn.alike {after : Image} (h : fix.HeldIn image value) (halike : image.Alike after) :
    fix.HeldIn after value := by
  refine ⟨h.placed, ?_, ?_⟩
  · rw [halike.width]
    exact h.words
  · rw [halike.width, halike.origin, halike.room]
    exact h.room

/-- A fixup that is held flips its row. -/
theorem apply_of_heldIn (hfix : fix.Inside) (hwidth : 1 ≤ image.width)
    (horigin : image.origin ≤ fix.ofs) (hheld : fix.HeldIn image value) :
    (fix.apply value).runFrom image =
      (.ok (), image.flipAll (fix.row image.origin image.width value)) := by
  rcases apply_cases hfix hwidth horigin value with ⟨-, hrun⟩ | ⟨hnot, -⟩
  · exact hrun
  · exact absurd hheld hnot

/-- Putting one value in and then another flips what both of them flip. -/
theorem apply_then {value' : Nat} (hfix : fix.Inside) (hother : other.Inside)
    (hwidth : 1 ≤ image.width) (horigin : image.origin ≤ fix.ofs)
    (horigin' : image.origin ≤ other.ofs) (hheld : fix.HeldIn image value)
    (hheld' : other.HeldIn image value') :
    (fix.apply value >>= fun _ => other.apply value').runFrom image =
      (.ok (), image.flipAll (fix.row image.origin image.width value ++
        other.row image.origin image.width value')) := by
  have hfirst := apply_of_heldIn hfix hwidth horigin hheld
  have hkept := hheld'.alike ((Image.Alike.refl image).flipAll hheld.room)
  rw [Attempt.runFrom_bind_ok hfirst, Image.flipAll_append]
  exact apply_of_heldIn hother hwidth horigin' hkept

/-- What putting a value into a field of an image comes to. -/
structure PutsIn (image : Image) (fix : Fixup) (value : Nat) : Prop where
  held : ((fix.apply value).runFrom image).1 = .ok () ↔ fix.HeldIn image value
  fault : ∀ fault, ((fix.apply value).runFrom image).1 = .error fault → ∃ why, fault = .excess why
  frame : ((fix.apply value).runFrom image).2 =
    { image with words := ((fix.apply value).runFrom image).2.words }
  narrow : ((fix.apply value).runFrom image).2.Narrow
  /-- Words that are not of the instruction are left alone, whether it succeeds or not. -/
  others : ∀ address, address < fix.ofs ∨ fix.ofs + fix.span image.width ≤ address →
    ((fix.apply value).runFrom image).2.read address = image.read address
  /-- The number of the instruction changes by the value, at the place of the field. -/
  number : fix.HeldIn image value →
    ∃ n, image.readNumber fix.ofs (fix.span image.width) = .ok n ∧
      ((fix.apply value).runFrom image).2.readNumber fix.ofs (fix.span image.width) =
        .ok (n ^^^ value * 2 ^ fix.behind)
  /-- Putting the value in again undoes it. -/
  twice : fix.HeldIn image value →
    ∃ again, (fix.apply value >>= fun _ => fix.apply value).runFrom image = (.ok (), again) ∧
      ∀ address, again.read address = image.read address

/-- A fixup puts its value into its field and changes nothing else. -/
theorem putsIn (hfix : fix.Inside) (hwidth : 1 ≤ image.width) (hnarrow : image.Narrow)
    (horigin : image.origin ≤ fix.ofs) (hvalue : value < 2 ^ fix.bitlen.toNat) :
    PutsIn image fix value := by
  have hrow : ∀ f ∈ fix.row image.origin image.width value, f.2 < 2 ^ image.width.toNat :=
    fun f => row_lt
  obtain ⟨n, hn⟩ : ∃ n, image.readNumber fix.ofs (fix.span image.width) = .ok n :=
    ⟨_, Image.readNumber_of_le horigin _⟩
  have htwice : fix.HeldIn image value →
      ∃ again, (fix.apply value >>= fun _ => fix.apply value).runFrom image = (.ok (), again) ∧
        ∀ address, again.read address = image.read address := by
    intro hheld
    refine ⟨_, apply_then hfix hfix hwidth horigin horigin hheld hheld, ?_⟩
    intro address
    apply Image.read_congr (image.origin_flipAll _)
    intro _
    -- At every place, what is flipped the second time is what was flipped the first time.
    rw [hnarrow.get_flipAll (List.forall_mem_append.2 ⟨hrow, hrow⟩), Words.flipsAt_append,
      Nat.xor_self, Nat.xor_zero]
  rcases apply_cases hfix hwidth horigin value with
    ⟨hheld, hrun⟩ | ⟨hnot, before, why, hbefore, hrun⟩
  · refine ⟨?_, ?_, ?_, ?_, ?_, ?_, htwice⟩ <;> rw [hrun]
    · exact ⟨fun _ => hheld, fun _ => rfl⟩
    · rintro fault ⟨⟩
    · rfl
    · exact hnarrow.flipAll hrow
    · exact fun address => read_flipAll_of_outside (List.Subset.refl _) horigin
    · exact fun _ => ⟨n, hn, readNumber_flipAll hfix hwidth hnarrow horigin hvalue hn⟩
  · -- It stops on the way, when a part of the row may have been flipped already.
    refine ⟨?_, ?_, ?_, ?_, ?_, fun hheld => absurd hheld hnot, htwice⟩ <;> rw [hrun]
    · refine ⟨?_, fun hheld => absurd hheld hnot⟩
      rintro ⟨⟩
    · rintro fault ⟨⟩
      exact ⟨why, rfl⟩
    · rfl
    · exact hnarrow.flipAll fun f hf => hrow f (hbefore.subset hf)
    · exact fun address => read_flipAll_of_outside hbefore.subset horigin

/-- What putting values into two fields of an instruction comes to: it can be done in either order,
and both values are there afterwards. -/
structure PutsBoth (image both : Image) (fix other : Fixup) (value value' : Nat) : Prop where
  forth : (fix.apply value >>= fun _ => other.apply value').runFrom image = (.ok (), both)
  back : (other.apply value' >>= fun _ => fix.apply value).runFrom image = (.ok (), both)
  stored : ∃ m, both.readNumber fix.ofs (fix.span image.width) = .ok m ∧
    fix.fieldOf m = value ∧ other.fieldOf m = value'

/-- Values of two fields that do not overlap and were zero are both put in. -/
theorem putsBoth {value' n : Nat} (hfix : fix.Inside) (hother : other.Inside)
    (hapart : fix.Apart other) (hwidth : 1 ≤ image.width) (hnarrow : image.Narrow)
    (horigin : image.origin ≤ fix.ofs) (hvalue : value < 2 ^ fix.bitlen.toNat)
    (hvalue' : value' < 2 ^ other.bitlen.toNat) (hheld : fix.HeldIn image value)
    (hheld' : other.HeldIn image value')
    (hn : image.readNumber fix.ofs (fix.span image.width) = .ok n) (hblank : fix.fieldOf n = 0)
    (hblank' : other.fieldOf n = 0) :
    PutsBoth image (image.flipAll (fix.row image.origin image.width value ++
      other.row image.origin image.width value')) fix other value value' := by
  have horigin' : image.origin ≤ other.ofs := hapart.ofs ▸ horigin
  have hrow : ∀ f ∈ fix.row image.origin image.width value, f.2 < 2 ^ image.width.toNat :=
    fun f => row_lt
  have hrow' : ∀ f ∈ other.row image.origin image.width value', f.2 < 2 ^ image.width.toNat :=
    fun f => row_lt
  refine ⟨apply_then hfix hother hwidth horigin horigin' hheld hheld', ?_,
    n ^^^ value * 2 ^ fix.behind ^^^ value' * 2 ^ other.behind, ?_, ?_, ?_⟩
  · -- The other order makes the same flips, in another order.
    rw [apply_then hother hfix hwidth horigin' horigin hheld' hheld]
    congr 1
    simp only [Image.flipAll]
    rw [Words.flipAll_perm List.perm_append_comm (List.forall_mem_append.2 ⟨hrow', hrow⟩)]
  · have hfirst := readNumber_flipAll hfix hwidth hnarrow horigin hvalue hn
    rw [← hapart.ofs, ← hapart.span_eq] at hfirst ⊢
    rw [Image.flipAll_append]
    refine readNumber_flipAll hother ?_ (hnarrow.flipAll hrow) ?_ hvalue' hfirst
    · exact hwidth
    · exact horigin'
  · rw [fieldOf_xor, fieldOf_xor, hblank, fieldOf_self hvalue,
      hapart.symm.fieldOf_eq_zero hother hfix hvalue', Nat.zero_xor, Nat.xor_zero]
  · rw [fieldOf_xor, fieldOf_xor, hblank', fieldOf_self hvalue',
      hapart.fieldOf_eq_zero hfix hother hvalue, Nat.zero_xor, Nat.zero_xor]

/-- **Putting a value into a field changes the field and nothing else**, if the value can be put in;
and two fields that were zero take their values in either order. -/
theorem apply_putsIn (hwidth : 1 ≤ image.width) (hnarrow : image.Narrow) (hfix : fix.Inside)
    (horigin : image.origin ≤ fix.ofs) (hvalue : value < 2 ^ fix.bitlen.toNat) :
    PutsIn image fix value ∧
      ∀ (other : Fixup) (value' n : Nat), other.Inside → fix.Apart other →
        value' < 2 ^ other.bitlen.toNat → fix.HeldIn image value → other.HeldIn image value' →
        image.readNumber fix.ofs (fix.span image.width) = .ok n →
        fix.fieldOf n = 0 → other.fieldOf n = 0 →
        ∃ both, PutsBoth image both fix other value value' := by
  refine ⟨putsIn hfix hwidth hnarrow horigin hvalue, ?_⟩
  intro other value' n hother hapart hvalue' hheld hheld' hn hblank hblank'
  exact ⟨_, putsBoth hfix hother hapart hwidth hnarrow horigin hvalue hvalue' hheld hheld' hn hblank
    hblank'⟩

end

/-- An instruction of sixteen bits of which all but the last three are zero. -/
def sampleImage : Image :=
  { words := #[255, 0, 5], origin := 4 }

/-- A field of the instruction that lies across its two words. -/
def sampleField : Fixup :=
  { sym := "there", ofs := 5, bitlen := 8, bitofs := 4, line := 1, nbits := 16 }

/-- The first four bits of the instruction. -/
def sampleHead : Fixup :=
  { sym := "here", ofs := 5, bitlen := 4, bitofs := 0, line := 1, nbits := 16 }

open UsualMachine in
theorem apply_putsIn_across :
    sampleField.HeldIn sampleImage 171 ∧ sampleHead.HeldIn sampleImage 12 ∧
      sampleField.Apart sampleHead ∧
      (((sampleField.apply 171).runFrom sampleImage).2.words = #[255, 10, 181]) ∧
      PutsIn sampleImage sampleField 171 ∧
      ∃ both, PutsBoth sampleImage both sampleField sampleHead 171 12 := by
  have hnarrow : sampleImage.Narrow := by
    show ∀ word ∈ #[255, 0, 5], word < 2 ^ 8
    decide
  have hfield : sampleField.Inside := by decide
  have hhead : sampleHead.Inside := by decide
  have hapart : sampleField.Apart sampleHead := ⟨rfl, rfl, by decide⟩
  have hok : ∀ {fix : Fixup} {value : Nat}, fix.Inside → value < 2 ^ fix.bitlen.toNat →
      sampleImage.origin ≤ fix.ofs → ((fix.apply value).runFrom sampleImage).1.isOk = true →
      fix.HeldIn sampleImage value := by
    intro fix value hfix hvalue horigin hrun
    refine (putsIn hfix (by decide) hnarrow horigin hvalue).held.1 ?_
    rcases hresult : ((fix.apply value).runFrom sampleImage).1 with fault | ⟨⟩
    · rw [hresult] at hrun
      cases hrun
    · rfl
  have hheld := hok hfield (by decide : 171 < 2 ^ 8) (by decide) (by decide +kernel)
  have hheld' := hok hhead (by decide : 12 < 2 ^ 4) (by decide) (by decide +kernel)
  obtain ⟨hputs, hboth⟩ := apply_putsIn (by decide) hnarrow hfield (by decide)
    (by decide : 171 < 2 ^ 8)
  refine ⟨hheld, hheld', hapart, by decide +kernel, hputs, ?_⟩
  refine hboth sampleHead 12 5 hhead hapart (by decide) hheld hheld' ?_ (by decide) (by decide)
  rw [Image.readNumber_of_le (by decide)]
  rfl

/-- An image of words of more bits than can be held. -/
def sampleOverwide : Image :=
  { width := 99999999999999999999 }

/-- A field that is an instruction of eight bits. -/
def sampleByte : Fixup :=
  { sym := "there", ofs := 0, bitlen := 8, bitofs := 0, line := 1, nbits := 8 }

open UsualMachine in
/-- Nothing can be put into an image whose words cannot be held. -/
theorem not_apply_overwide :
    1 ≤ sampleOverwide.width ∧ sampleOverwide.Narrow ∧ sampleByte.Inside ∧
      sampleOverwide.origin ≤ sampleByte.ofs ∧ 5 < 2 ^ sampleByte.bitlen.toNat ∧
      ((sampleByte.apply 5).runFrom sampleOverwide).1 ≠ .ok () := by
  have hfails : ((sampleByte.apply 5).runFrom sampleOverwide).1.isOk = false := by
    decide +kernel
  refine ⟨by decide, ?_, by decide, by decide, by decide, ?_⟩
  · intro word hword
    exact absurd hword (Array.not_mem_empty word)
  · intro hok
    rw [hok] at hfails
    cases hfails

end Fixup

end Retarget
