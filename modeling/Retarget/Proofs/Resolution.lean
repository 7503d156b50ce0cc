import Retarget.Proofs.HexTexts
import Retarget.Proofs.Packing
import Retarget.Proofs.Trace

/-!
# What finishing does

At the end of a program every fixup whose symbol has a number flips that number into the words of
its instruction.  Here the words are given as rows of flips (`Fixup.flips`), and resolving all
fixups is flipping all of these rows in order (`Resolution.image_of_resolveAll`).  Then each
record is given the words that stand at its address, or is told to be in front of the image
(`Record.renderAll_eq_ok`), and the image grows to its declared length.
`Assembler.finished_of_finish` puts the three together.
-/

namespace Retarget

/-! ## The flips of a fixup -/

/-- The value that symbols give to a field of `bits` bits in an instruction at `address`; it is zero
for a symbol without a number. -/
def Pending.value (symbols : String → Option SymbolValue) (address : Int) (p : Pending)
    (bits : Nat) : Nat :=
  match (symbols p.sym).bind SymbolValue.toNumber? with
  | some n => ((if p.relative then n - (address + p.offset) else n) % 2 ^ bits).toNat
  | none => 0

/-- A pending value fits its bits. -/
theorem Pending.value_lt (symbols : String → Option SymbolValue) (address : Int) (p : Pending)
    (bits : Nat) :
    p.value symbols address bits < 2 ^ bits := by
  rw [Pending.value]
  split
  · rw [← Bits.low_eq]
    exact Bits.low_lt bits _
  · exact Nat.two_pow_pos bits

namespace Fixup

/-- What symbols flip in the instruction of a fixup, as a number of the length of the
instruction. -/
def patch (symbols : String → Option SymbolValue) (fix : Fixup) : Nat :=
  2 ^ (fix.length - fix.bitofs - fix.bitlen).toNat *
    fix.pending.value symbols fix.ofs fix.bitlen.toNat

/-- The number of words of the instruction of a fixup. -/
def span (fix : Fixup) (width : Int) : Nat :=
  (max 1 (-(Int.fdiv (-fix.length) width))).toNat

/-- What a value of the field flips in an image that starts at `origin`: places and the bits to flip
there. -/
def row (fix : Fixup) (origin width : Int) (value : Nat) : List (Nat × Nat) :=
  ((List.range (fix.span width)).map fun k =>
    ((fix.ofs - origin).toNat + k, wordAt width.toNat (fix.span width)
      (2 ^ (fix.length - fix.bitofs - fix.bitlen).toNat * value : Nat) k)).filter (·.2 != 0)

/-- What symbols flip in an image that starts at `origin`: places and the bits to flip there.
Nothing is flipped in front of the image. -/
def flips (symbols : String → Option SymbolValue) (origin width : Int) (fix : Fixup) :
    List (Nat × Nat) :=
  if fix.ofs < origin then []
  else fix.row origin width (fix.pending.value symbols fix.ofs fix.bitlen.toNat)

variable {symbols : String → Option SymbolValue} {origin width : Int} {fix : Fixup}

/-- A value of the field flips words of the instruction only. -/
theorem mem_row {value : Nat} {f : Nat × Nat} (h : f ∈ fix.row origin width value) :
    ∃ k < fix.span width, f.1 = (fix.ofs - origin).toNat + k ∧ f.2 ≠ 0 ∧
      f.2 = wordAt width.toNat (fix.span width)
        (2 ^ (fix.length - fix.bitofs - fix.bitlen).toNat * value : Nat) k := by
  obtain ⟨hmem, hne⟩ := List.mem_filter.1 h
  obtain ⟨k, hk, rfl⟩ := List.mem_map.1 hmem
  exact ⟨k, List.mem_range.1 hk, rfl, by simpa using hne, rfl⟩

/-- A fixup whose instruction is in the image flips what the value of its symbol does. -/
theorem flips_of_le (h : origin ≤ fix.ofs) :
    fix.flips symbols origin width =
      fix.row origin width (fix.pending.value symbols fix.ofs fix.bitlen.toNat) :=
  if_neg (Int.not_lt.2 h)

/-- Symbols flip words of the instruction of a fixup only, and only if it is in the image. -/
theorem mem_flips {f : Nat × Nat} (h : f ∈ fix.flips symbols origin width) :
    origin ≤ fix.ofs ∧ ∃ k < fix.span width, f.1 = (fix.ofs - origin).toNat + k ∧ f.2 ≠ 0 ∧
      f.2 = wordAt width.toNat (fix.span width) (fix.patch symbols) k := by
  by_cases hofs : origin ≤ fix.ofs
  · rw [flips_of_le hofs] at h
    exact ⟨hofs, mem_row h⟩
  · rw [flips, if_pos (Int.not_le.1 hofs)] at h
    cases h

/-- What symbols flip fits into words. -/
theorem flips_lt {f : Nat × Nat} (h : f ∈ fix.flips symbols origin width) :
    f.2 < 2 ^ width.toNat := by
  obtain ⟨-, k, -, -, -, hbits⟩ := mem_flips h
  rw [hbits]
  exact wordAt_lt _ _ _ _

/-- What a value flips fits into words. -/
theorem row_lt {value : Nat} {f : Nat × Nat} (h : f ∈ fix.row origin width value) :
    f.2 < 2 ^ width.toNat := by
  obtain ⟨k, -, -, -, hbits⟩ := mem_row h
  rw [hbits]
  exact wordAt_lt _ _ _ _

/-- A number that is zero flips nothing. -/
theorem flips_of_patch_eq_zero (h : fix.patch symbols = 0) :
    fix.flips symbols origin width = [] := by
  rw [flips]
  split
  · rfl
  · rw [row, List.filter_eq_nil_iff, ← patch]
    intro f hf
    obtain ⟨k, -, rfl⟩ := List.mem_map.1 hf
    simp [h]

end Fixup

/-- Flips of no bits do not count. -/
theorem Words.flipsAt_filter (flips : List (Nat × Nat)) (i : Nat) :
    flipsAt (flips.filter (·.2 != 0)) i = flipsAt flips i := by
  induction flips with
  | nil => rfl
  | cons f rest ih =>
    by_cases h : f.2 = 0
    · rw [List.filter_cons_of_neg (by simp [h]), ih, flipsAt_cons, h, ite_self, Nat.zero_xor]
    · rw [List.filter_cons_of_pos (by simp [h]), flipsAt_cons, flipsAt_cons, ih]

/-- What is flipped at a place by a row of flips from a base on. -/
theorem Words.flipsAt_row (base n : Nat) (bits : Nat → Nat) (k : Nat) :
    flipsAt ((List.range n).map fun j => (base + j, bits j)) (base + k) =
      if k < n then bits k else 0 := by
  induction n with
  | zero => rfl
  | succ n ih =>
    rw [List.range_succ, List.map_append, flipsAt_append, ih, List.map_singleton, flipsAt_cons,
      flipsAt_nil, Nat.xor_zero]
    rcases Nat.lt_trichotomy k n with hk | rfl | hk
    · rw [if_pos hk, if_neg (by omega), if_pos (by omega), Nat.xor_zero]
    · rw [if_neg (Nat.lt_irrefl k), if_pos rfl, if_pos (Nat.lt_succ_self k), Nat.zero_xor]
    · rw [if_neg (by omega), if_neg (by omega), if_neg (by omega), Nat.zero_xor]

/-- What a value of the field flips at a word of its instruction. -/
theorem Fixup.flipsAt_of_row (fix : Fixup) (origin width : Int) (value : Nat) {k : Nat}
    (hk : k < fix.span width) :
    Words.flipsAt (fix.row origin width value) ((fix.ofs - origin).toNat + k) =
      wordAt width.toNat (fix.span width)
        (2 ^ (fix.length - fix.bitofs - fix.bitlen).toNat * value : Nat) k := by
  rw [row, Words.flipsAt_filter, Words.flipsAt_row, if_pos hk]

/-- What a fixup flips at a word of its instruction. -/
theorem Fixup.flipsAt_flips (symbols : String → Option SymbolValue) {origin : Int} (width : Int)
    {fix : Fixup} (h : origin ≤ fix.ofs) {k : Nat} (hk : k < fix.span width) :
    Words.flipsAt (fix.flips symbols origin width) ((fix.ofs - origin).toNat + k) =
      wordAt width.toNat (fix.span width) (fix.patch symbols) k := by
  rw [flips_of_le h]
  exact fix.flipsAt_of_row origin width _ hk

/-! ## Images with bits flipped -/

namespace Image

/-- An image with bits of its words flipped. -/
def flipAll (image : Image) (flips : List (Nat × Nat)) : Image :=
  { image with words := Words.flipAll image.width.toNat flips image.words }

@[simp] theorem width_flipAll (image : Image) (flips : List (Nat × Nat)) :
    (image.flipAll flips).width = image.width := rfl

@[simp] theorem origin_flipAll (image : Image) (flips : List (Nat × Nat)) :
    (image.flipAll flips).origin = image.origin := rfl

@[simp] theorem place_flipAll (image : Image) (flips : List (Nat × Nat)) (address : Int) :
    (image.flipAll flips).place address = image.place address := rfl

/-- Flips are made one after the other. -/
theorem flipAll_append (image : Image) (flips flips' : List (Nat × Nat)) :
    image.flipAll (flips ++ flips') = (image.flipAll flips).flipAll flips' := by
  simp only [flipAll, Words.flipAll_append]

end Image

/-! ## What becomes of a fixup -/

/-- A fixup that is skipped flips nothing. -/
theorem Fixup.flips_of_skip {symbols : String → Option SymbolValue} {origin width : Int}
    {fix : Fixup} {notice : Notice} (h : fix.judge symbols origin = .skip notice) :
    fix.flips symbols origin width = [] := by
  rw [judge] at h
  split at h
  · rename_i hbelow
    rw [flips, if_pos hbelow]
  · refine flips_of_patch_eq_zero ?_
    have hnone : (symbols fix.sym).bind SymbolValue.toNumber? = none := by
      split at h
      · rename_i hsym
        rw [hsym]
        rfl
      · rename_i hsym
        split at h
        · rename_i hnumber
          rw [hsym]
          exact hnumber
        · cases h
    rw [patch, Pending.value]
    simp only [pending, hnone, Nat.mul_zero]

/-- A fixup that is filled takes the number of its symbol. -/
theorem Fixup.value_of_fill {symbols : String → Option SymbolValue} {origin : Int} {fix : Fixup}
    {value : Int} (h : fix.judge symbols origin = .fill value) (bits : Nat) :
    origin ≤ fix.ofs ∧ fix.pending.value symbols fix.ofs bits = Bits.low bits value := by
  rw [judge] at h
  split at h
  · cases h
  · rename_i hbelow
    refine ⟨Int.not_lt.1 hbelow, ?_⟩
    split at h
    · cases h
    · rename_i hsym
      split at h
      · cases h
      · rename_i hnumber
        cases h
        rw [Pending.value, Bits.low_eq, adjust]
        simp only [pending, hsym, Option.bind_some, hnumber]
        rfl

/-- Bits are counted in words by rounding up. -/
theorem wordCount_eq_ok {nbits width count : Int} (h : wordCount nbits width = .ok count) :
    width ≠ 0 ∧ count = -(Int.fdiv (-nbits) width) := by
  rw [wordCount] at h
  split at h
  · cases h
  · rename_i hwidth
    cases h
    exact ⟨hwidth, rfl⟩

theorem mapIdx_map_range {α β : Type} (n : Nat) (f : Nat → α) (g : Nat → α → β) :
    ((List.range n).map f).mapIdx g = (List.range n).map fun k => g k (f k) := by
  refine List.ext_getElem (by simp) fun k _ _ => ?_
  simp

/-- A notice is told as it is. -/
theorem Notice.shown_eq_ok {notice notice' : Notice} (h : notice.shown = .ok notice') :
    notice' = notice := by
  rw [shown] at h
  split at h
  · cases h
    rfl
  · cases h

/-- Reporting adds a report to those that there are. -/
theorem Resolution.report_eq_ok {r r' : Resolution} {notice : Notice} {line : Int}
    (h : (report notice line).runFrom r = (.ok (), r')) :
    r' = { r with reports := r.reports ++ [⟨notice, line⟩] } := by
  obtain ⟨shown, s, hs, hmodify⟩ := Attempt.runFrom_bind_eq_ok.1 h
  rw [Attempt.runFrom_ofExcept, Prod.mk.injEq] at hs
  obtain ⟨hshown, rfl⟩ := hs
  obtain rfl := Notice.shown_eq_ok hshown
  cases hmodify
  rfl

/-- Telling something changes no image. -/
theorem Resolution.image_of_report {r r' : Resolution} {notice : Notice} {line : Int}
    (h : (report notice line).runFrom r = (.ok (), r')) : r'.image = r.image := by
  rw [report_eq_ok h]

/-! ## Records and what they show -/

namespace Record

/-- The number of words of a record where words have `width` bits. -/
def count (record : Record) (width : Int) : Nat :=
  (-(Int.fdiv (-record.nbits) width)).toNat

/-- The words that stand at the address of a record. -/
def wordsIn (record : Record) (image : Image) : List Nat :=
  image.wordsFrom record.offset (record.count image.width)

/-- A record with the words at its address as text; none are shown in front of the image. -/
def shownIn (record : Record) (image : Image) : Record :=
  if record.offset < image.origin then record
  else { record with
    text := " ".intercalate (Hex.texts image.width (record.wordsIn image)) }

/-- A longer image shows the same words. -/
theorem shownIn_grow (record : Record) (image : Image) (length : Nat) :
    record.shownIn { image with words := Words.grow image.words length } =
      record.shownIn image := by
  simp only [shownIn, wordsIn, Image.wordsFrom, Image.place, Words.get_grow]

/-- What is told of a record in front of an image. -/
def below? (image : Image) (record : Record) : Option Report :=
  if record.offset < image.origin then some ⟨.belowOrigin record.offset image.origin, record.line⟩
  else none

end Record

/-- Telling reports adds a diagnostic for each of them and changes nothing else. -/
theorem Assembler.warnAll_eq (reports : List Report) (a : Assembler) :
    a.warnAll reports = { a with diagnostics := a.diagnostics ++
      (reports.map fun report =>
        (⟨report.notice, a.lineOr (some report.line), false⟩ : Diagnostic)).toArray } := by
  induction reports generalizing a with
  | nil => simp [warnAll]
  | cons report rest ih =>
    have hstep : a.warnAll (report :: rest) =
        (a.warn report.notice (some report.line)).warnAll rest := rfl
    rw [hstep, ih]
    simp [warn, lineOr]

/-! ## Resolving -/

variable [Machine]

/-- The words that a value of a field changes. -/
theorem Fixup.patches_eq_ok {fix : Fixup} {width : Int} {value : Nat} {patches : List (Nat × Nat)}
    (h : fix.patches width value = .ok patches) :
    Capacity.fieldBits width = .ok width.toNat ∧
      patches = ((List.range (fix.span width)).map fun k =>
        (k, wordAt width.toNat (fix.span width)
          (2 ^ (fix.length - fix.bitofs - fix.bitlen).toNat * value : Nat) k)).filter
            (·.2 != 0) := by
  rw [Fixup.patches] at h
  rcases hcount : wordCount fix.length width with fault | count
  · rw [hcount] at h
    cases h
  rcases hplaced : Capacity.shiftUp value (fix.length - fix.bitofs - fix.bitlen) with fault | placed
  · rw [hcount, hplaced] at h
    cases h
  rcases hbits : Capacity.fieldBits width with fault | bits
  · rw [hcount, hplaced, hbits] at h
    cases h
  obtain ⟨-, rfl⟩ := Capacity.fieldBits_eq_ok hbits
  obtain ⟨-, rfl⟩ := wordCount_eq_ok hcount
  obtain ⟨-, rfl⟩ := Capacity.shiftUp_eq_ok hplaced
  rw [hcount, hplaced, hbits] at h
  refine ⟨rfl, ?_⟩
  have hnumber : (value : Int) * 2 ^ (fix.length - fix.bitofs - fix.bitlen).toNat =
      (2 ^ (fix.length - fix.bitofs - fix.bitlen).toNat * value : Nat) := by
    rw [Int.mul_comm, Int.natCast_mul, Int.natCast_pow]
    rfl
  rw [hnumber] at h
  generalize 2 ^ (fix.length - fix.bitofs - fix.bitlen).toNat * value = number at h ⊢
  -- The number zero is not cut into words at all, and the filter would drop all of them.
  by_cases hzero : (number : Int) = 0
  · cases h.symm.trans (if_pos hzero)
    rw [eq_comm, List.filter_eq_nil_iff]
    intro f hf
    obtain ⟨k, -, rfl⟩ := List.mem_map.1 hf
    simp [hzero]
  · cases h.symm.trans (if_neg hzero)
    rw [splitWords, mapIdx_map_range]
    rfl

/-- Whether an image after flips is the image before with these flips, all of them where there is
room. -/
structure Image.Flipped (flips : List (Nat × Nat)) (image after : Image) : Prop where
  eq : after = { image with words := Words.flipAll image.width.toNat flips image.words }
  room : ∀ f ∈ flips, f.1 < Machine.words
  size_le : after.words.size ≤ Machine.words

namespace Image

variable {image after : Image} {flips : List (Nat × Nat)}

/-- Flips where there is room for them take none away. -/
theorem room_flipAll (h : ∀ f ∈ flips, f.1 < image.room) :
    (image.flipAll flips).room = image.room := by
  have hextent := Words.extent_le_iff.2 h
  simp only [room, flipAll, Words.size_flipAll] at hextent ⊢
  omega

/-- Whether an image has kept its width, its origin and its room. -/
structure Alike (image after : Image) : Prop where
  width : after.width = image.width
  origin : after.origin = image.origin
  room : after.room = image.room

theorem Alike.refl (image : Image) : image.Alike image :=
  ⟨rfl, rfl, rfl⟩

/-- Flips within the room leave an image alike. -/
theorem Alike.flipAll {middle : Image} (h : image.Alike middle)
    (hroom : ∀ f ∈ flips, f.1 < middle.room) : image.Alike (middle.flipAll flips) :=
  ⟨h.width, h.origin, (room_flipAll hroom).trans h.room⟩

theorem Flipped.width_eq (h : Flipped flips image after) : after.width = image.width := by
  rw [h.eq]

theorem Flipped.origin_eq (h : Flipped flips image after) : after.origin = image.origin := by
  rw [h.eq]

/-- Flips within the room are made. -/
theorem flipped_flipAll (hsize : image.words.size ≤ Machine.words)
    (h : ∀ f ∈ flips, f.1 < image.room) : Flipped flips image (image.flipAll flips) := by
  have hsize' := room_flipAll h
  rw [room_eq_words hsize] at h hsize'
  refine ⟨rfl, h, ?_⟩
  rw [← hsize']
  exact Nat.le_max_left _ _

/-- **Flipping words of an instruction one after the other** goes as far as there is room. -/
theorem each_flip {address : Int} (horigin : image.origin ≤ address)
    (hbits : Capacity.fieldBits image.width = .ok image.width.toNat) {patches : List (Nat × Nat)}
    (hlt : ∀ p ∈ patches, p.2 < 2 ^ image.width.toNat) :
    ((∀ p ∈ patches, image.place address + p.1 < image.room) ∧
      (Attempt.each (fun ((k, word) : Nat × Nat) => flip (address + (k : Nat)) (word : Nat))
          patches).runFrom image =
        (.ok (), image.flipAll (patches.map fun p => (image.place address + p.1, p.2)))) ∨
    ((¬∀ p ∈ patches, image.place address + p.1 < image.room) ∧
      ∃ before why, before <+: patches.map (fun p => (image.place address + p.1, p.2)) ∧
        (Attempt.each (fun ((k, word) : Nat × Nat) => flip (address + (k : Nat)) (word : Nat))
          patches).runFrom image = (.error (.excess why), image.flipAll before)) := by
  induction patches generalizing image with
  | nil => exact .inl ⟨List.forall_mem_nil _, rfl⟩
  | cons p rest ih =>
    have horigin' : image.origin ≤ address + (p.1 : Nat) := by omega
    have hplace : image.place (address + (p.1 : Nat)) = image.place address + p.1 := by
      rw [place, place]
      omega
    by_cases hp : image.place address + p.1 < image.room
    · -- The first word leaves origin, width and room as the others need them.
      have hreach := (reaches_iff horigin').2 (hplace ▸ hp)
      have hfirst := flip_of_reaches hreach hbits (hlt p List.mem_cons_self)
      rw [hplace] at hfirst
      have hroom : (image.flipAll [(image.place address + p.1, p.2)]).room = image.room :=
        room_flipAll (List.forall_mem_singleton.2 hp)
      have hrest := @ih (image.flipAll [(image.place address + p.1, p.2)]) horigin hbits
        fun q hq => hlt q (List.mem_cons_of_mem p hq)
      rw [hroom] at hrest
      have hrun := Attempt.runFrom_bind_ok hfirst fun _ => Attempt.each
        (fun ((k, word) : Nat × Nat) => flip (address + (k : Nat)) (word : Nat)) rest
      rcases hrest with ⟨hall, hok⟩ | ⟨hnot, before, why, hbefore, herror⟩
      · exact .inl ⟨List.forall_mem_cons.2 ⟨hp, hall⟩, hrun.trans hok⟩
      · refine .inr ⟨fun hall => hnot (List.forall_mem_cons.1 hall).2,
          (image.place address + p.1, p.2) :: before, why, ?_, hrun.trans herror⟩
        exact List.prefix_cons_inj _ |>.2 hbefore
    · have hreach : ¬image.Reaches (address + (p.1 : Nat)) := by
        rw [reaches_iff horigin', hplace]
        exact hp
      obtain ⟨why, hfirst⟩ := modifyAt_of_no_room horigin' hreach _
      refine .inr ⟨fun hall => hp (List.forall_mem_cons.1 hall).1, [], why, List.nil_prefix, ?_⟩
      exact Attempt.runFrom_bind_error hfirst _

end Image

/-- Putting a value into a field flips the words that it changes, as far as there is room. -/
theorem Fixup.apply_of_patches {fix : Fixup} {value : Nat} {image : Image}
    {patches : List (Nat × Nat)} (horigin : image.origin ≤ fix.ofs)
    (h : fix.patches image.width value = .ok patches) :
    ((∀ f ∈ fix.row image.origin image.width value, f.1 < image.room) ∧
      (fix.apply value).runFrom image =
        (.ok (), image.flipAll (fix.row image.origin image.width value))) ∨
    ((¬∀ f ∈ fix.row image.origin image.width value, f.1 < image.room) ∧
      ∃ before why, before <+: fix.row image.origin image.width value ∧
        (fix.apply value).runFrom image = (.error (.excess why), image.flipAll before)) := by
  obtain ⟨hbits, hpatches⟩ := patches_eq_ok h
  have hrun : (fix.apply value).runFrom image = (Attempt.each
      (fun ((k, word) : Nat × Nat) => Image.flip (fix.ofs + (k : Nat)) (word : Nat))
      patches).runFrom image := by
    rw [Attempt.runFrom, Fixup.apply, h]
    rfl
  have hrow : fix.row image.origin image.width value =
      patches.map fun p => (image.place fix.ofs + p.1, p.2) := by
    rw [hpatches, row, List.filter_map, List.filter_map, List.map_map]
    rfl
  have hlt : ∀ p ∈ patches, p.2 < 2 ^ image.width.toNat := by
    intro p hp
    rw [hpatches] at hp
    obtain ⟨k, -, rfl⟩ := List.mem_map.1 (List.mem_filter.1 hp).1
    exact wordAt_lt _ _ _ _
  rw [hrun, hrow, List.forall_mem_map]
  exact Image.each_flip horigin hbits hlt

/-- A fixup that is applied has flipped its row, which is within the room. -/
theorem Fixup.image_of_apply {fix : Fixup} {value : Nat} {image after : Image}
    (horigin : image.origin ≤ fix.ofs) (h : (fix.apply value).runFrom image = (.ok (), after)) :
    after = image.flipAll (fix.row image.origin image.width value) ∧
      ∀ f ∈ fix.row image.origin image.width value, f.1 < image.room := by
  rcases hpatches : fix.patches image.width value with fault | patches
  · rw [Attempt.runFrom, Fixup.apply, hpatches] at h
    cases h
  · rcases apply_of_patches horigin hpatches with ⟨hroom, hok⟩ | ⟨-, before, why, -, herror⟩
    · rw [hok] at h
      cases h
      exact ⟨rfl, hroom⟩
    · rw [herror] at h
      cases h

/-- The low bits of a value are its rest by the power of two. -/
theorem lowBits_eq_ok {width value : Int} {n : Nat} (h : lowBits width value = .ok n) :
    n = Bits.low width.toNat value := by
  rcases hbits : Capacity.fieldBits width with fault | bits
  · rw [lowBits, hbits] at h
    cases h
  · obtain ⟨-, rfl⟩ := Capacity.fieldBits_eq_ok hbits
    rw [Image.lowBits_of_fieldBits hbits] at h
    cases h
    rfl

namespace Resolution

variable {symbols : String → Option SymbolValue} {r r' : Resolution}

/-- **Resolving a fixup**, if it succeeds, tells why the fixup is skipped, or puts in its value and
tells if that is too wide. -/
theorem resolve_eq_ok {fix : Fixup} (h : (resolve symbols fix).runFrom r = (.ok (), r')) :
    (∃ notice, fix.judge symbols r.image.origin = .skip notice ∧
      r' = { r with reports := r.reports ++ [⟨notice, fix.line⟩] }) ∨
    ∃ value image, fix.judge symbols r.image.origin = .fill value ∧
      (fix.apply (Bits.low fix.bitlen.toNat value)).runFrom r.image = (.ok (), image) ∧
      r' = {
        image := image
        reports := r.reports ++ if Fixup.overflows fix.bitlen.toNat value then
          [⟨.symbolTooWide fix.sym value fix.bitlen, fix.line⟩] else []
        resolved := r.resolved + 1 } := by
  rw [resolve, Attempt.runFrom_bind_ok (Attempt.runFrom_get r)] at h
  rcases hjudge : fix.judge symbols r.image.origin with notice | value
  · rw [hjudge] at h
    exact .inl ⟨notice, rfl, report_eq_ok h⟩
  · rw [hjudge] at h
    obtain ⟨low, s, hlow, h⟩ := Attempt.runFrom_bind_eq_ok.1 h
    rw [Attempt.runFrom_ofExcept, Prod.mk.injEq] at hlow
    obtain ⟨hlow, rfl⟩ := hlow
    obtain rfl := lowBits_eq_ok hlow
    have hput : ∀ t : Resolution,
        (onImage (fix.apply (Bits.low fix.bitlen.toNat value)) >>= fun _ =>
          modify fun (r : Resolution) => { r with resolved := r.resolved + 1 }).runFrom t =
            (.ok (), r') →
        ∃ image, (fix.apply (Bits.low fix.bitlen.toNat value)).runFrom t.image = (.ok (), image) ∧
          r' = { t with image := image, resolved := t.resolved + 1 } := by
      intro t ht
      obtain ⟨u, t', happly, hcount⟩ := Attempt.runFrom_bind_eq_ok.1 ht
      rw [onImage, Attempt.runFrom_on, Prod.mk.injEq] at happly
      obtain ⟨hok, rfl⟩ := happly
      cases hcount
      exact ⟨_, Prod.ext hok rfl, rfl⟩
    refine .inr ⟨value, ?_⟩
    simp only at h
    by_cases hover : Fixup.overflows fix.bitlen.toNat value = true
    · rw [if_pos hover] at h ⊢
      obtain ⟨u, t, hreport, h⟩ := Attempt.runFrom_bind_eq_ok.1 h
      obtain ⟨image, happly, hr⟩ := hput t h
      rw [report_eq_ok hreport] at happly hr
      exact ⟨image, rfl, happly, hr⟩
    · rw [if_neg hover] at h ⊢
      obtain ⟨image, happly, hr⟩ := hput r h
      rw [List.append_nil]
      exact ⟨image, rfl, happly, hr⟩

/-- Resolving a fixup flips what its symbol gives. -/
theorem image_of_resolve {fix : Fixup} (h : (resolve symbols fix).runFrom r = (.ok (), r')) :
    r'.image = r.image.flipAll (fix.flips symbols r.image.origin r.image.width) ∧
      ∀ f ∈ fix.flips symbols r.image.origin r.image.width, f.1 < r.image.room := by
  rcases resolve_eq_ok h with ⟨notice, hjudge, rfl⟩ | ⟨value, image, hjudge, happly, rfl⟩
  · rw [Fixup.flips_of_skip hjudge]
    exact ⟨rfl, List.forall_mem_nil _⟩
  · obtain ⟨horigin, hvalue⟩ := Fixup.value_of_fill hjudge fix.bitlen.toNat
    rw [Fixup.flips_of_le horigin, hvalue]
    exact Fixup.image_of_apply horigin happly

/-- A fixup that is resolved has made its flips. -/
theorem flipped_of_resolve {fix : Fixup} (hsize : r.image.words.size ≤ Machine.words)
    (h : (resolve symbols fix).runFrom r = (.ok (), r')) :
    Image.Flipped (fix.flips symbols r.image.origin r.image.width) r.image r'.image := by
  obtain ⟨himage, hroom⟩ := image_of_resolve h
  rw [himage]
  exact Image.flipped_flipAll hsize hroom

/-- **Resolving fixups flips what their symbols give.** -/
theorem image_of_resolveAll {fixups : List Fixup}
    (h : (resolveAll symbols fixups).runFrom r = (.ok (), r')) :
    r'.image = r.image.flipAll (fixups.flatMap
        (Fixup.flips symbols r.image.origin r.image.width)) ∧
      ∀ f ∈ fixups.flatMap (Fixup.flips symbols r.image.origin r.image.width),
        f.1 < r.image.room := by
  induction fixups generalizing r with
  | nil =>
    cases h
    exact ⟨rfl, List.forall_mem_nil _⟩
  | cons fix rest ih =>
    obtain ⟨u, s, hfix, hrest⟩ := Attempt.runFrom_bind_eq_ok.1 h
    obtain ⟨hfirst, hroom⟩ := image_of_resolve hfix
    obtain ⟨hmore, hroom'⟩ := ih hrest
    rw [hfirst, Image.room_flipAll hroom] at hroom'
    rw [hfirst] at hmore
    rw [List.flatMap_cons, Image.flipAll_append, List.forall_mem_append]
    exact ⟨hmore, hroom, hroom'⟩

/-- Fixups that are resolved have made their flips. -/
theorem flipped_of_resolveAll {fixups : List Fixup} (hsize : r.image.words.size ≤ Machine.words)
    (h : (resolveAll symbols fixups).runFrom r = (.ok (), r')) :
    Image.Flipped (fixups.flatMap
      (Fixup.flips symbols r.image.origin r.image.width)) r.image r'.image := by
  obtain ⟨himage, hroom⟩ := image_of_resolveAll h
  rw [himage]
  exact Image.flipped_flipAll hsize hroom

end Resolution

/-! ## Rendering -/

namespace Record

variable {image : Image}

/-- A record that can be shown shows the words of the image, and its width can be held. -/
theorem render_eq_ok {record rendered : Record} {report : Option Report} (hwidth : 0 ≤ image.width)
    (h : record.render image true = .ok (rendered, report)) :
    (rendered = record.shownIn image ∧ report = below? image record) ∧
      (image.origin ≤ record.offset → record.count image.width ≠ 0 →
        Capacity.fieldBits image.width = .ok image.width.toNat) := by
  rw [render] at h
  rw [shownIn, below?]
  split at h
  · rename_i hbelow
    rw [if_pos rfl] at h
    rcases hshown : (Notice.belowOrigin record.offset image.origin).shown with fault | notice
    · rw [hshown] at h
      cases h
    · rw [hshown] at h
      cases h
      rw [if_pos hbelow, if_pos hbelow, Notice.shown_eq_ok hshown]
      exact ⟨⟨rfl, rfl⟩, fun hle => absurd hbelow (Int.not_lt.2 hle)⟩
  · rename_i hbelow
    rcases hcount : wordCount record.nbits image.width with fault | n
    · rw [hcount] at h
      cases h
    rcases htext : image.render record.offset n with fault | text
    · rw [hcount] at h
      change (image.render record.offset n >>= fun text => Except.ok _) = _ at h
      rw [htext] at h
      cases h
    · obtain ⟨-, rfl⟩ := wordCount_eq_ok hcount
      rw [hcount] at h
      change (image.render record.offset _ >>= fun text =>
        Except.ok (({ record with text } : Record), (none : Option Report))) = _ at h
      rw [htext] at h
      cases h
      obtain ⟨rfl, hbits⟩ := Image.render_eq_ok hwidth (Int.not_lt.1 hbelow) htext
      rw [if_neg hbelow, if_neg hbelow]
      refine ⟨⟨rfl, rfl⟩, fun _ hne => hbits ?_⟩
      rw [count] at hne
      omega

/-- **Rendering shows each record the words at its address**, and tells of those in front of the
image. -/
theorem renderAll_eq_ok {records rendered : List Record} {reports : List Report}
    (hwidth : 0 ≤ image.width) (h : renderAll image true records = (.ok (), rendered, reports)) :
    (rendered = records.map (shownIn · image) ∧ reports = records.filterMap (below? image)) ∧
      ∀ record ∈ records, image.origin ≤ record.offset → record.count image.width ≠ 0 →
        Capacity.fieldBits image.width = .ok image.width.toNat := by
  induction records generalizing rendered reports with
  | nil =>
    cases h
    exact ⟨⟨rfl, rfl⟩, nofun⟩
  | cons record rest ih =>
    rw [renderAll] at h
    rcases hrender : record.render image true with fault | ⟨first, report⟩
    · rw [hrender] at h
      cases h
    · rw [hrender] at h
      rcases hrest : renderAll image true rest with ⟨result, records, more⟩
      rw [hrest] at h
      cases h
      obtain ⟨⟨rfl, rfl⟩, hbits⟩ := render_eq_ok hwidth hrender
      obtain ⟨⟨rfl, rfl⟩, hmore⟩ := ih hrest
      refine ⟨⟨rfl, ?_⟩, List.forall_mem_cons.2 ⟨hbits, hmore⟩⟩
      rw [List.filterMap_cons]
      cases below? image record <;> rfl

end Record

/-! ## Finishing -/

namespace Assembler

/-- Resolving fixups changes the image, counts them and tells what they tell. -/
theorem runFrom_resolveFixups (a : Assembler) :
    resolveFixups.runFrom a =
      (((Resolution.resolveAll (Bindings.find? a.symbols) a.fixups.toList).runFrom
          { image := a.image }).1,
        { a with
          image := ((Resolution.resolveAll (Bindings.find? a.symbols) a.fixups.toList).runFrom
            { image := a.image }).2.image }.warnAll
          ((Resolution.resolveAll (Bindings.find? a.symbols) a.fixups.toList).runFrom
            { image := a.image }).2.reports) := rfl

/-- Showing records changes the records and tells which of them are below the origin. -/
theorem runFrom_renderRecords (a : Assembler) :
    renderRecords.runFrom a =
      ((Record.renderAll a.image true a.records.toList).1,
        { a with
          records := (Record.renderAll a.image true a.records.toList).2.1.toArray }.warnAll
          (Record.renderAll a.image true a.records.toList).2.2) := rfl

/-- What the symbols flip in the image at the end of a program. -/
def flips (a : Assembler) : List (Nat × Nat) :=
  a.fixups.toList.flatMap (Fixup.flips (Bindings.find? a.symbols) a.image.origin a.image.width)

/-- What finishing does to an assembler. -/
structure Finished (a b : Assembler) : Prop where
  image : b.image = { a.image with
    words := Words.grow (Words.flipAll a.image.width.toNat a.flips a.image.words) a.codelen.toNat }
  room : ∀ f ∈ a.flips, f.1 < Machine.words
  records : b.records.toList = a.records.toList.map (Record.shownIn · b.image)
  told : ∀ record ∈ a.records.toList, record.offset < a.image.origin → record.line ≠ 0 →
    ⟨.belowOrigin record.offset a.image.origin, record.line, false⟩ ∈ b.diagnostics.toList
  held : ∀ record ∈ a.records.toList, a.image.origin ≤ record.offset →
    record.count a.image.width ≠ 0 →
    Capacity.fieldBits a.image.width = .ok a.image.width.toNat
  origin : b.origin = a.origin

/-- An assembler is finished in three stages: its fixups are resolved, its records are rendered and
its image is filled up. -/
theorem stages_of_finish {a b : Assembler} (h : finish.runFrom a = (.ok (), b)) :
    ∃ c d image, resolveFixups.runFrom a = (.ok (), c) ∧ renderRecords.runFrom c = (.ok (), d) ∧
      d.image.pad d.codelen = .ok image ∧ b = { d with image, fixups := #[] } := by
  obtain ⟨⟨⟩, c, hresolve, h⟩ := Attempt.runFrom_bind_eq_ok.1 h
  obtain ⟨⟨⟩, d, hrender, h⟩ := Attempt.runFrom_bind_eq_ok.1 h
  rw [Attempt.runFrom_bind_ok (Attempt.runFrom_get d)] at h
  obtain ⟨image, e, hpad, hset⟩ := Attempt.runFrom_bind_eq_ok.1 h
  rw [Attempt.runFrom_ofExcept, Prod.mk.injEq] at hpad
  obtain ⟨hpad, rfl⟩ := hpad
  cases hset
  exact ⟨c, d, image, hresolve, hrender, hpad, rfl⟩

/-- **Finishing flips, renders and grows.** -/
theorem finished_of_finish {a b : Assembler} (hsize : a.image.words.size ≤ Machine.words)
    (hwidth : 0 ≤ a.image.width) (h : finish.runFrom a = (.ok (), b)) : Finished a b := by
  obtain ⟨c, d, image, hresolve, hrender, hpad, rfl⟩ := stages_of_finish h
  obtain ⟨-, rfl⟩ := Image.pad_eq_ok.1 hpad
  rw [Attempt.runFrom, resolveFixups] at hresolve
  rcases hall : (Resolution.resolveAll (Bindings.find? a.symbols) a.fixups.toList).runFrom
    { image := a.image } with ⟨result, reached⟩
  rw [hall] at hresolve
  obtain ⟨rfl, rfl⟩ := Prod.mk.injEq .. ▸ hresolve
  have hflipped := Resolution.flipped_of_resolveAll hsize hall
  rw [Attempt.runFrom, renderRecords, warnAll_eq] at hrender
  rcases hrecords : Record.renderAll reached.image true a.records.toList with
    ⟨result, records, reports⟩
  simp only [hrecords] at hrender
  obtain ⟨rfl, rfl⟩ := Prod.mk.injEq .. ▸ hrender
  have hwidth' : 0 ≤ reached.image.width := hflipped.width_eq ▸ hwidth
  obtain ⟨⟨rfl, rfl⟩, hheld⟩ := Record.renderAll_eq_ok hwidth' hrecords
  rw [warnAll_eq]
  rw [hflipped.origin_eq, hflipped.width_eq] at hheld
  refine ⟨?_, hflipped.room, ?_, ?_, hheld, rfl⟩
  · simp only [hflipped.eq]
    rfl
  · exact List.map_congr_left fun record _ => (Record.shownIn_grow record _ _).symm
  · intro record hrecord hbelow hline
    rw [← hflipped.origin_eq] at hbelow ⊢
    have hreport : (⟨.belowOrigin record.offset reached.image.origin, record.line⟩ : Report) ∈
        a.records.toList.filterMap (Record.below? reached.image) :=
      List.mem_filterMap.2 ⟨record, hrecord, by rw [Record.below?, if_pos hbelow]⟩
    simp only [Array.toList_append]
    refine List.mem_append_right _ (List.mem_map.2 ⟨_, hreport, ?_⟩)
    rw [lineOr, if_neg hline]

end Assembler

end Retarget
