import Retarget.Proofs.Resolution

/-!
# Where a program puts its words

A first pass over the events of a program lays out what it emits: each emission gets an address, and
the addresses of those after it depend on its size only.  No word is written and no symbol looked up
for that.

The assembler does what the first pass lays out.  `Follows` relates the two at every moment of a
run: the same address and symbols, a record and the fixups of each placed emission, and an image in
which its words were written one emission after the other.  One event keeps this up
(`Follows.apply`), and so does every program (`follows_assembleLines`).
-/

namespace Retarget

/-! ## Sizes -/

/-- The number of words of `width` bits that hold `nbits` bits. -/
def wordsFor (nbits width : Nat) : Nat :=
  (nbits + width - 1) / width

/-- Rounding up, in the two ways it is written. -/
theorem neg_fdiv_neg_eq_wordsFor (nbits : Nat) {width : Int} (h : 1 ≤ width) :
    -(Int.fdiv (-(nbits : Int)) width) = wordsFor nbits width.toNat := by
  obtain ⟨w, rfl⟩ := Int.eq_ofNat_of_zero_le (show 0 ≤ width by omega)
  have hw : (0 : Int) < w := by omega
  rw [Int.fdiv_eq_ediv_of_nonneg _ (Int.le_of_lt hw), Int.toNat_natCast, wordsFor, Int.natCast_ediv,
    Int.natCast_sub (by omega), Int.natCast_add, Int.natCast_one]
  have hlow := Int.ediv_mul_le (-(nbits : Int)) (Int.ne_of_gt hw)
  have hhigh := Int.lt_ediv_add_one_mul_self (-(nbits : Int)) hw
  generalize -(nbits : Int) / w = q at hlow hhigh ⊢
  rw [Int.add_mul, Int.one_mul] at hhigh
  refine Int.le_antisymm ?_ ?_
  · rw [Int.le_ediv_iff_mul_le hw, Int.neg_mul]
    omega
  · refine Int.lt_add_one_iff.1 (Int.ediv_lt_of_lt_mul hw ?_)
    rw [Int.add_mul, Int.neg_mul, Int.one_mul]
    omega

/-- Words of their own width are counted one by one. -/
theorem neg_fdiv_neg_mul {width : Int} (h : 1 ≤ width) (n : Nat) :
    -(Int.fdiv (-(width * n)) width) = n := by
  rw [← Int.mul_neg, Int.mul_fdiv_cancel_left _ (by omega), Int.neg_neg]

/-- Only no bits need no words. -/
theorem wordsFor_eq_zero {nbits width : Nat} (h : 0 < width) :
    wordsFor nbits width = 0 ↔ nbits = 0 := by
  rw [wordsFor, Nat.div_eq_zero_iff]
  omega

variable [Machine]

namespace Encoding

/-- The length of the instruction. -/
def nbits (e : Encoding) : Nat :=
  (e.rule.layout.map e.arch.bitsOf).sum

/-- The fields of an encoding are sound. -/
theorem fields_sound (e : Encoding) : ∀ f ∈ e.fields, f.Sound := by
  intro f hf
  obtain ⟨entry, -, hentry⟩ := exists_of_mem_mapM e.built hf
  exact Field.sound_of_ofEntry hentry

/-- The fields of an encoding have the bits of the instruction together. -/
theorem lengthOf_fields (e : Encoding) : Instruction.lengthOf e.fields = e.nbits :=
  Instruction.lengthOf_of_mapM e.built

end Encoding

/-- An emission in its place: its address, and the origin, width and line it was met with. -/
structure Placed where
  emission : Emission
  address : Int
  origin : Int
  width : Int
  line : Nat

namespace Placed

/-- The number of words of an emission. -/
def size (p : Placed) : Nat :=
  match p.emission with
  | .code e => wordsFor e.nbits p.width.toNat
  | .data tokens => tokens.length
  | .text characters => characters.length

/-- The number of bits of an emission. -/
def nbits (p : Placed) : Int :=
  match p.emission with
  | .code e => e.nbits
  | .data tokens => p.width * tokens.length
  | .text characters => p.width * characters.length

/-- The record of an emission. -/
def record (p : Placed) : Record :=
  { line := p.line, offset := p.address, nbits := p.nbits }

/-- The place of the first word of an emission in an image that starts at its origin. -/
def base (p : Placed) : Nat :=
  (p.address - p.origin).toNat

end Placed

/-! ## The first pass -/

/-- What a first pass over a program knows. -/
structure Pass where
  ip : Int := 0
  origin : Int := 0
  width : Int := Arch.defaultWidth
  line : Nat := 0
  codelen : Int := 0
  symbols : Symbols := []
  placed : List Placed := []

namespace Pass

/-- The emission that a pass meets next, in its place. -/
def place (pass : Pass) (emission : Emission) : Placed :=
  ⟨emission, pass.ip, pass.origin, pass.width, pass.line⟩

/-- One event of a first pass. -/
def step (pass : Pass) : Event → Pass
  | .count => { pass with line := pass.line + 1 }
  | .bind name value => { pass with symbols := Bindings.bind pass.symbols name value }
  | .tell _ => pass
  | .halt _ => pass
  | .activate set => { pass with width := set.arch.width }
  | .origin address => { pass with ip := address, origin := address }
  | .length n => { pass with codelen := n }
  | .width n => if n < 1 then pass else { pass with width := n }
  | .align n => if n < 1 ∨ pass.codelen < n then pass else { pass with ip := -(-pass.ip / n) * n }
  | .emit emission => { pass with
      ip := pass.ip + (pass.place emission).size
      placed := pass.placed ++ [pass.place emission] }

/-- A first pass over events. -/
def run (pass : Pass) (events : List Event) : Pass :=
  events.foldl step pass

@[simp] theorem run_nil (pass : Pass) : pass.run [] = pass := rfl

@[simp] theorem run_cons (pass : Pass) (e : Event) (events : List Event) :
    pass.run (e :: events) = (pass.step e).run events := rfl

/-- A pass that has read nothing, with an instruction set if there is one. -/
def start (active : Option InstructionSet) : Pass :=
  match active with
  | none => {}
  | some set => { width := set.arch.width }

end Pass

/-! ## Words, writes and fixups of an emission -/

namespace Words

/-- Words from a place on, as far as there is room. -/
def row : (place : Nat) → List Nat → List (Nat × Nat)
  | _, [] => []
  | place, word :: rest =>
    if place < Machine.words then (place, word) :: row (place + 1) rest else []

/-- The places of a row are behind its start, and there is room for them. -/
theorem mem_row {place : Nat} {words : List Nat} {f : Nat × Nat} (h : f ∈ row place words) :
    f.1 < Machine.words ∧ ∃ k < words.length, f.1 = place + k := by
  induction words generalizing place with
  | nil => cases h
  | cons word rest ih =>
    rw [row] at h
    split at h
    · rename_i hroom
      rcases List.mem_cons.1 h with rfl | h
      · exact ⟨hroom, 0, Nat.zero_lt_succ _, rfl⟩
      · obtain ⟨hlt, k, hk, hplace⟩ := ih h
        exact ⟨hlt, k + 1, Nat.succ_lt_succ hk, by omega⟩
    · cases h

/-- The word of a row at a place. -/
theorem lastWrite_row {place k : Nat} {words : List Nat} (hroom : place + k < Machine.words) :
    lastWrite (row place words) (place + k) = words[k]? := by
  induction words generalizing place k with
  | nil => rfl
  | cons word rest ih =>
    rw [row, if_pos (by omega), lastWrite_cons]
    cases k with
    | zero =>
      have hnone : lastWrite (row (place + 1) rest) (place + 0) = none :=
        lastWrite_eq_none fun f hf => by
          obtain ⟨-, j, -, hj⟩ := mem_row hf
          omega
      rw [hnone, if_pos (Nat.add_zero place).symm]
      rfl
    | succ k =>
      have hrest := ih (show place + 1 + k < Machine.words by omega)
      rw [show place + 1 + k = place + (k + 1) by omega] at hrest
      rw [hrest, if_neg (by omega), Option.or_none, List.getElem?_cons_succ]

/-- Rows of the same length reach equally far. -/
theorem extent_row_congr {place : Nat} {u v : List Nat} (h : u.length = v.length) :
    extent (row place u) = extent (row place v) := by
  induction u generalizing place v with
  | nil =>
    rw [List.length_nil, eq_comm, List.length_eq_zero_iff] at h
    rw [h]
  | cons word rest ih =>
    cases v with
    | nil => cases h
    | cons other more =>
      rw [row, row]
      split
      · rw [extent_cons, extent_cons, ih (Nat.succ.inj h)]
      · rfl

end Words

namespace Placed

/-- The words of an emission with zeros for all that waits for symbols. -/
def blank (p : Placed) : List Nat :=
  match p.emission with
  | .code e => splitWords p.width.toNat p.size (Instruction.pack e.fields)
  | .data tokens => tokens.map fun token => Bits.low p.width.toNat (Assembler.dataValue token)
  | .text characters => characters.map fun c => Bits.low p.width.toNat c.toNat

/-- The words of an emission and where they are written. -/
def writes (p : Placed) : List (Nat × Nat) :=
  Words.row p.base p.blank

/-- The fixup of a word of a data line for a symbol. -/
def dataFixup (p : Placed) (place : Nat) (token : String) : Fixup :=
  Assembler.wordFixup (p.address + place) p.width p.line token

/-- The fixups of an emission. -/
def fixups (p : Placed) : List Fixup :=
  match p.emission with
  | .code e => Instruction.fixupsOf p.address p.line e.nbits 0 e.fields
  | .data tokens => Assembler.dataFixups p.address p.width p.line tokens
  | .text _ => []

/-- Whether the words of an emission can be held, if it has any. -/
def Held (p : Placed) : Prop :=
  Capacity.fieldBits p.width = .ok p.width.toNat ∨ p.size = 0

@[simp] theorem length_blank (p : Placed) : p.blank.length = p.size := by
  rw [blank]
  split
  · rw [splitWords, List.length_map, List.length_range]
  · rename_i hp
    rw [size, hp, List.length_map]
  · rename_i hp
    rw [size, hp, List.length_map]

/-- The words of an emission fit into words. -/
theorem blank_lt {p : Placed} {word : Nat} (h : word ∈ p.blank) : word < 2 ^ p.width.toNat := by
  rw [blank] at h
  split at h
  · obtain ⟨k, -, rfl⟩ := List.mem_map.1 h
    exact wordAt_lt _ _ _ _
  · obtain ⟨token, -, rfl⟩ := List.mem_map.1 h
    exact Bits.low_lt _ _
  · obtain ⟨c, -, rfl⟩ := List.mem_map.1 h
    exact Bits.low_lt _ _

/-- The record of an emission has as many words as the emission. -/
theorem count_record {p : Placed} (h : 1 ≤ p.width) : p.record.count p.width = p.size := by
  rw [Record.count, record, nbits, size]
  split
  · rw [neg_fdiv_neg_eq_wordsFor _ h, Int.toNat_natCast]
  · rw [neg_fdiv_neg_mul h, Int.toNat_natCast]
  · rw [neg_fdiv_neg_mul h, Int.toNat_natCast]

end Placed

/-! ## Storing words -/

namespace Assembler

/-- What holds of an assembler at every moment: the image has the width and the origin of the
assembler, the next word is not in front of the image, and the image is not larger than there is
room. -/
structure Sound (a : Assembler) : Prop where
  image_width : a.image.width = a.width
  image_origin : a.image.origin = a.origin
  width_pos : 1 ≤ a.width
  origin_le : a.origin ≤ a.ip
  room : a.image.words.size ≤ Machine.words

/-- Being sound is a matter of the image and of where its words go. -/
theorem Sound.congr {a b : Assembler} (hs : a.Sound) (hip : b.ip = a.ip)
    (horigin : b.origin = a.origin) (hwidth : b.width = a.width) (himage : b.image = a.image) :
    b.Sound := by
  refine ⟨?_, ?_, ?_, ?_, ?_⟩
  · rw [himage, hwidth, hs.image_width]
  · rw [himage, horigin, hs.image_origin]
  · rw [hwidth]
    exact hs.width_pos
  · rw [horigin, hip]
    exact hs.origin_le
  · rw [himage]
    exact hs.room

/-- What storing words one after the other does: `b` is `a` with the words in its image as far as
there is room, and it has stopped if there was none for some of them. -/
structure Stored (a : Assembler) (values : List Int) (b : Assembler) : Prop where
  frame : b = { a with
    ip := b.ip, diagnostics := b.diagnostics, aborted := b.aborted
    image := { a.image with words := b.image.words } }
  ip_le : a.ip ≤ b.ip
  room : b.image.words.size ≤ Machine.words
  ip : b.aborted = false → b.ip = a.ip + values.length
  words : Capacity.fieldBits a.width = .ok a.width.toNat ∨ values = [] →
    b.image.words =
      Words.depositAll (Words.row (a.image.place a.ip)
        (values.map (Bits.low a.width.toNat))) a.image.words
  held : b.aborted = false → Capacity.fieldBits a.width = .ok a.width.toNat ∨ values = []
  told : ∀ d ∈ b.diagnostics.toList, d ∈ a.diagnostics.toList ∨
    ∃ why, d.notice = .failure (.excess why)

/-- An assembler with its next word written. -/
def withWord (a : Assembler) (value : Int) : Assembler :=
  { a with
    ip := a.ip + 1
    image := { a.image with
      words := Words.deposit a.image.words (a.image.place a.ip) (Bits.low a.width.toNat value) } }

/-- In a sound assembler, the next word has a place if there is room for it on the machine. -/
theorem Sound.reaches_iff {a : Assembler} (hs : a.Sound) :
    a.image.Reaches a.ip ↔ a.image.place a.ip < Machine.words := by
  have hroom := hs.room
  have horigin : a.image.origin ≤ a.ip := hs.image_origin ▸ hs.origin_le
  rw [Image.Reaches]
  omega

/-- A word is stored where it has a place and can be held. -/
theorem store_of_reaches {a : Assembler} (hs : a.Sound) (h : a.image.Reaches a.ip)
    (hbits : Capacity.fieldBits a.width = .ok a.width.toNat) (value : Int) :
    (store value).runFrom a = (.ok (), a.withWord value) := by
  have hbits : Capacity.fieldBits a.image.width = .ok a.width.toNat := hs.image_width ▸ hbits
  have hput : (onImage (Image.put a.ip value)).runFrom a =
      (.ok (), { a with image := (a.withWord value).image }) := by
    rw [onImage, Attempt.runFrom_on, Image.put_of_reaches h hbits]
    rfl
  rw [store, Attempt.runFrom_bind_ok (Attempt.runFrom_get a), Attempt.runFrom_bind_ok hput]
  rfl

/-- Storing a word keeps an assembler sound. -/
theorem Sound.withWord {a : Assembler} (hs : a.Sound) (h : a.image.Reaches a.ip) (value : Int) :
    (a.withWord value).Sound := by
  refine ⟨hs.image_width, hs.image_origin, hs.width_pos, ?_, ?_⟩
  · have := hs.origin_le
    show a.origin ≤ a.ip + 1
    omega
  · have hplace := hs.reaches_iff.1 h
    have hroom := hs.room
    show (Words.deposit _ _ _).size ≤ _
    rw [Words.size_deposit]
    omega

/-- The next word goes to the next place. -/
theorem place_withWord {a : Assembler} (h : a.image.Reaches a.ip) (value : Int) :
    (a.withWord value).image.place (a.withWord value).ip = a.image.place a.ip + 1 := by
  have := h.1
  show (a.ip + 1 - a.image.origin).toNat = (a.ip - a.image.origin).toNat + 1
  omega

/-- Writing a word fails without a place for it or bits to hold it, and then changes the length of
the image at most. -/
theorem put_of_error {a : Assembler} (hs : a.Sound)
    (h : ¬ (a.image.Reaches a.ip ∧ Capacity.fieldBits a.width = .ok a.width.toNat)) (value : Int) :
    ∃ why words, (Image.put a.ip value).runFrom a.image =
        (.error (.excess why), { a.image with words }) ∧
      words.size ≤ Machine.words ∧ (¬ a.image.Reaches a.ip → words = a.image.words) ∧
      ∀ i, Words.get words i = Words.get a.image.words i := by
  -- The image grows before the bits of the word are looked at, and keeps that length.
  by_cases hreach : a.image.Reaches a.ip
  · have hwidth : 0 ≤ a.image.width := by
      have := hs.width_pos
      rw [hs.image_width]
      omega
    have hbits : ∃ why, lowBits a.image.width value = .error (.excess why) := by
      rcases hb : Capacity.fieldBits a.image.width with fault | bits
      · obtain ⟨why, rfl⟩ := Capacity.fieldBits_eq_error hwidth hb
        exact ⟨why, by rw [lowBits, hb]; rfl⟩
      · obtain ⟨-, rfl⟩ := Capacity.fieldBits_eq_ok hb
        rw [hs.image_width] at hb
        exact absurd ⟨hreach, hb⟩ h
    obtain ⟨why, hfault⟩ := hbits
    refine ⟨why, Words.grow a.image.words (a.image.place a.ip + 1), ?_, ?_,
      fun hno => absurd hreach hno, fun i => Words.get_grow _ _ i⟩
    · refine (Image.modifyAt_of_reaches hreach fun _ => lowBits a.image.width value).trans ?_
      rw [hfault]
    · have hplace := hs.reaches_iff.1 hreach
      have hroom := hs.room
      rw [Words.size_grow]
      omega
  · have horigin : a.image.origin ≤ a.ip := hs.image_origin ▸ hs.origin_le
    obtain ⟨why, hfault⟩ :=
      Image.modifyAt_of_no_room horigin hreach fun _ => lowBits a.image.width value
    exact ⟨why, a.image.words, hfault, hs.room, fun _ => rfl, fun _ => rfl⟩

/-- A word that has no place or cannot be held fails for that, and only the image may have grown. -/
theorem store_of_error {a : Assembler} (hs : a.Sound)
    (h : ¬ (a.image.Reaches a.ip ∧ Capacity.fieldBits a.width = .ok a.width.toNat)) (value : Int) :
    ∃ why words, (store value).runFrom a =
      (.error (.excess why), { a with image := { a.image with words } }) ∧
      words.size ≤ Machine.words ∧ (¬ a.image.Reaches a.ip → words = a.image.words) ∧
      ∀ i, Words.get words i = Words.get a.image.words i := by
  obtain ⟨why, words, hput, hwords⟩ := put_of_error hs h value
  refine ⟨why, words, ?_, hwords⟩
  rw [store, Attempt.runFrom_bind_ok (Attempt.runFrom_get a)]
  refine Attempt.runFrom_bind_error ?_ _
  rw [onImage, Attempt.runFrom_on, hput]

omit [Machine] in
/-- Stopping tells one notice more. -/
theorem mem_diagnostics_stop {a : Assembler} {notice : Notice} {line : Option Int} {d : Diagnostic}
    (h : d ∈ (a.stop notice line).diagnostics.toList) :
    d ∈ a.diagnostics.toList ∨ d.notice = notice := by
  rw [stop, Array.toList_push, List.mem_append, List.mem_singleton] at h
  rcases h with h | rfl
  · exact .inl h
  · exact .inr rfl

/-- **Storing words.**  By induction on them: each word has its place right behind the last one. -/
theorem stored_of_each {a : Assembler} (hs : a.Sound) (values : List Int) :
    Stored a values (guarded (Attempt.each store values) a) := by
  induction values generalizing a with
  | nil =>
    exact ⟨rfl, Int.le_refl _, hs.room, fun _ => (Int.add_zero _).symm, fun _ => rfl,
      fun _ => .inr rfl, fun _ => .inl⟩
  | cons value rest ih =>
    -- The first word that cannot be stored stops the run, and the row stops there as well.
    by_cases h : a.image.Reaches a.ip ∧ Capacity.fieldBits a.width = .ok a.width.toNat
    · obtain ⟨hreach, hbits⟩ := h
      have hmore := ih (hs.withWord hreach value)
      rw [Attempt.each, guarded_bind_of_ok (store_of_reaches hs hreach hbits value)]
      refine ⟨hmore.frame, ?_, hmore.room, fun hab => ?_, fun _ => ?_, fun _ => .inl hbits,
        hmore.told⟩
      · have hle : a.ip + 1 ≤ _ := hmore.ip_le
        omega
      · have hip : _ = a.ip + 1 + (rest.length : Int) := hmore.ip hab
        rw [hip, List.length_cons]
        omega
      · rw [hmore.words (.inl hbits), place_withWord hreach, List.map_cons, Words.row,
          if_pos (hs.reaches_iff.1 hreach), Words.depositAll_cons]
        rfl
    · obtain ⟨why, words, hstore, hsize, hwords, -⟩ := store_of_error hs h value
      rw [Attempt.each, guarded_bind_of_error hstore]
      refine ⟨rfl, Int.le_refl _, hsize, (by rintro ⟨⟩), ?_, (by rintro ⟨⟩), ?_⟩
      · rintro (hbits | hnil)
        · have hreach : ¬ a.image.Reaches a.ip := fun hreach => h ⟨hreach, hbits⟩
          rw [List.map_cons, Words.row, if_neg fun hlt => hreach (hs.reaches_iff.2 hlt)]
          exact hwords hreach
        · cases hnil
      · intro d hd
        rcases mem_diagnostics_stop hd with hd | hd
        · exact .inl hd
        · exact .inr ⟨why, hd⟩

/-! ## Emitting -/

/-- The emission that an assembler meets next, in its place. -/
def place (a : Assembler) (emission : Emission) : Placed :=
  ⟨emission, a.ip, a.origin, a.width, a.line⟩

/-- Whether a notice is about the length of an instruction. -/
def isAboutLength : Notice → Bool
  | .zeroLength => true
  | .tooLong => true
  | .unaligned _ => true
  | _ => false

/-- Whether what is told after an emission was told before, is about the length of its instruction,
or is that some of its words could not be stored. -/
def Tells (before after : Array Diagnostic) : Prop :=
  ∀ d ∈ after.toList, d ∈ before.toList ∨ isAboutLength d.notice = true ∨
    ∃ why, d.notice = .failure (.excess why)

/-- What an emission does: `b` is `a` with a record, fixups and the words of the emission, and it
has stopped if not all of these words could be stored. -/
structure Emitted (a : Assembler) (p : Placed) (b : Assembler) : Prop where
  frame : b = { a with
    ip := b.ip, diagnostics := b.diagnostics, aborted := b.aborted
    image := { a.image with words := b.image.words }
    records := a.records.push p.record, fixups := a.fixups ++ p.fixups.toArray }
  ip_le : a.ip ≤ b.ip
  room : b.image.words.size ≤ Machine.words
  ip : b.aborted = false → b.ip = a.ip + p.size
  words : p.Held → b.image.words = Words.depositAll p.writes a.image.words
  held : b.aborted = false → p.Held
  told : Tells a.diagnostics b.diagnostics

/-- The assembler that has noted an emission and is about to store its words. -/
def noted (a : Assembler) (p : Placed) (diagnostics : Array Diagnostic) : Assembler :=
  { a with diagnostics, records := a.records.push p.record, fixups := a.fixups ++ p.fixups.toArray }

section Emit

variable {a : Assembler} {emission : Emission} {diagnostics : Array Diagnostic}

/-- Noting an emission keeps an assembler sound. -/
theorem Sound.noted (hs : a.Sound) (p : Placed) (diagnostics : Array Diagnostic) :
    (a.noted p diagnostics).Sound :=
  hs.congr rfl rfl rfl rfl

/-- An emission is made by storing its words, which are blank where symbols are missing. -/
theorem emitted_of_each (hs : a.Sound) (htold : Tells a.diagnostics diagnostics)
    {values : List Int} (hvalues : values.map (Bits.low a.width.toNat) = (a.place emission).blank) :
    Emitted a (a.place emission)
      (guarded (Attempt.each store values) (a.noted (a.place emission) diagnostics)) := by
  have hlength : values.length = (a.place emission).size := by
    rw [← Placed.length_blank, ← hvalues, List.length_map]
  have hstored := stored_of_each (hs.noted (a.place emission) diagnostics) values
  have hheld : (a.place emission).Held ↔
      Capacity.fieldBits a.width = .ok a.width.toNat ∨ values = [] := by
    rw [Placed.Held, ← hlength, List.length_eq_zero_iff]
    rfl
  have hbase : a.image.place a.ip = (a.place emission).base := by
    rw [Image.place, hs.image_origin]
    rfl
  refine ⟨hstored.frame, hstored.ip_le, hstored.room, fun hab => ?_, fun hp => ?_, fun hab => ?_,
    fun d hd => ?_⟩
  · rw [hstored.ip hab, hlength]
    rfl
  · rw [hstored.words (hheld.1 hp), Placed.writes, ← hbase, ← hvalues]
    rfl
  · exact hheld.2 (hstored.held hab)
  · rcases hstored.told d hd with hd | hd
    · exact htold d hd
    · exact .inr (.inr hd)

omit [Machine] in
theorem Tells.refl (diagnostics : Array Diagnostic) : Tells diagnostics diagnostics :=
  fun _ => .inl

/-- Emitting words notes a record and stores them. -/
theorem guarded_emitWords (values : List Int) :
    guarded (emitWords values) a = guarded (Attempt.each store values) { a with
      records := a.records.push
        { line := a.line, offset := a.ip, nbits := a.width * values.length } } := by
  have hnote : (note (a.width * values.length)).runFrom a =
      (.ok { line := a.line, offset := a.ip, nbits := a.width * values.length }, { a with
        records := a.records.push
          { line := a.line, offset := a.ip, nbits := a.width * values.length } }) := rfl
  rw [emitWords, guarded_get_bind, guarded_bind_of_ok hnote, guarded_bind_pure]

/-- A text is emitted by storing its code points. -/
theorem apply_text (a : Assembler) (characters : List Char) :
    a.apply (.emit (.text characters)) =
      guarded (Attempt.each store (characters.map fun c => (c.toNat : Int)))
        (a.noted (a.place (.text characters)) a.diagnostics) := by
  rw [apply, perform, guarded_bind_pure, guarded_emitWords, List.length_map]
  simp only [noted, Placed.fixups, place, Array.append_empty]
  rfl

/-- A text is emitted as it is placed. -/
theorem emitted_text (hs : a.Sound) (characters : List Char) :
    Emitted a (a.place (.text characters)) (a.apply (.emit (.text characters))) := by
  rw [apply_text]
  refine emitted_of_each hs (.refl _) ?_
  rw [List.map_map]
  rfl

/-- Data are emitted by storing their numbers, zero for symbols. -/
theorem apply_data (a : Assembler) (tokens : List String) :
    a.apply (.emit (.data tokens)) =
      guarded (Attempt.each store (tokens.map dataValue))
        (a.noted (a.place (.data tokens)) a.diagnostics) := by
  rw [apply, perform, obeyData, guarded_modify_bind, guarded_bind_pure, guarded_emitWords,
    List.length_map]
  rfl

/-- Data are emitted as they are placed. -/
theorem emitted_data (hs : a.Sound) (tokens : List String) :
    Emitted a (a.place (.data tokens)) (a.apply (.emit (.data tokens))) := by
  rw [apply_data]
  refine emitted_of_each hs (.refl _) ?_
  rw [List.map_map]
  rfl

omit [Machine] in
/-- What may be told of an instruction before it is emitted is about its length. -/
theorem lengthNotice_eq_ok (nbits : Nat) {width : Int} (h : 1 ≤ width) :
    ∃ notice, lengthNotice nbits width = .ok notice ∧ ∀ n ∈ notice, isAboutLength n = true := by
  rw [lengthNotice]
  repeat' split
  · exact ⟨_, rfl, by rintro _ ⟨⟩; rfl⟩
  · exact ⟨_, rfl, by rintro _ ⟨⟩; rfl⟩
  · omega
  · exact ⟨_, rfl, by rintro _ ⟨⟩; rfl⟩
  · exact ⟨_, rfl, by rintro _ ⟨⟩⟩

omit [Machine] in
/-- Bits are counted in words by rounding up. -/
theorem wordCount_natCast (nbits : Nat) {width : Int} (h : 1 ≤ width) :
    wordCount nbits width = .ok (wordsFor nbits width.toNat : Int) := by
  rw [wordCount, if_neg (by omega), neg_fdiv_neg_eq_wordsFor nbits h]

omit [Machine] in
theorem each_map {α β σ : Type} (f : β → Attempt σ Unit) (g : α → β) (xs : List α) :
    Attempt.each f (xs.map g) = Attempt.each (fun x => f (g x)) xs := by
  induction xs with
  | nil => rfl
  | cons x xs ih => rw [List.map_cons, Attempt.each, Attempt.each, ih]

/-- Emitting bits whose words can be held notes them and stores the words. -/
theorem runFrom_emit_of_ok (h : 1 ≤ a.width) {bits : Nat}
    (hbits : Capacity.fieldBits a.width = .ok bits) (opcode nbits : Nat) :
    (emit opcode nbits).runFrom a =
      (Attempt.each store
          ((splitWords bits (wordsFor nbits a.width.toNat) opcode).map fun (word : Nat) =>
            (word : Int)) >>= fun _ =>
        pure ({ line := a.line, offset := a.ip, nbits := nbits } : Record)).runFrom
        { a with
          records := a.records.push { line := a.line, offset := a.ip, nbits := nbits } } := by
  rw [each_map store fun (word : Nat) => (word : Int)]
  show (Attempt.ofExcept (wordCount nbits a.width) >>= _).runFrom _ = _
  rw [wordCount_natCast nbits h, Attempt.runFrom_bind_ok (Attempt.runFrom_ofExcept _ _), hbits,
    Attempt.runFrom_bind_ok (Attempt.runFrom_ofExcept _ _), Int.toNat_natCast]

/-- Emitting bits whose words cannot be held notes them and fails. -/
theorem runFrom_emit_of_error (h : 1 ≤ a.width) {fault : Fault}
    (hbits : Capacity.fieldBits a.width = .error fault) (opcode nbits : Nat) :
    (emit opcode nbits).runFrom a = (.error fault, { a with
      records := a.records.push { line := a.line, offset := a.ip, nbits := nbits } }) := by
  show (Attempt.ofExcept (wordCount nbits a.width) >>= _).runFrom _ = _
  rw [wordCount_natCast nbits h, Attempt.runFrom_bind_ok (Attempt.runFrom_ofExcept _ _), hbits]
  rfl

/-- Emitting a number notes a record, and stores its words if these can be held. -/
theorem guarded_emit (h : 1 ≤ a.width) (opcode nbits : Nat) :
    guarded (emit opcode nbits) a =
      match Capacity.fieldBits a.width with
      | .error fault =>
        { a with records := a.records.push { line := a.line, offset := a.ip, nbits := nbits } }.stop
          (.failure fault) none
      | .ok bits =>
        guarded (Attempt.each store
            ((splitWords bits (wordsFor nbits a.width.toNat) opcode).map fun (word : Nat) =>
              (word : Int)))
          { a with
            records := a.records.push { line := a.line, offset := a.ip, nbits := nbits } } := by
  rcases hbits : Capacity.fieldBits a.width with fault | bits
  · exact guarded_of_error (runFrom_emit_of_error h hbits opcode nbits)
  · rw [guarded, runFrom_emit_of_ok h hbits, ← guarded, guarded_bind_pure]

/-- What may be told when an instruction is emitted: one thing about its length. -/
def TellsLength (a : Assembler) (diagnostics : Array Diagnostic) : Prop :=
  diagnostics = a.diagnostics ∨
    ∃ notice, isAboutLength notice = true ∧ diagnostics = (a.warn notice none).diagnostics

omit [Machine] in
theorem TellsLength.tells (h : a.TellsLength diagnostics) : Tells a.diagnostics diagnostics := by
  intro d hd
  rcases h with rfl | ⟨notice, habout, rfl⟩
  · exact .inl hd
  · rw [warn, Array.toList_push, List.mem_append, List.mem_singleton] at hd
    rcases hd with hd | rfl
    · exact .inl hd
    · exact .inr (.inl habout)

/-- Emitting a built instruction tells about its length, queues its fixups and emits its bits. -/
theorem runFrom_emitInstruction (h : 1 ≤ a.width) (instruction : Instruction) :
    ∃ diagnostics, a.TellsLength diagnostics ∧ (emitInstruction instruction).runFrom a =
      (emit instruction.opcode instruction.nbits).runFrom
        { a with diagnostics, fixups := a.fixups ++ instruction.fixups.toArray } := by
  obtain ⟨notice, hnotice, habout⟩ := lengthNotice_eq_ok instruction.nbits h
  rw [emitInstruction, Attempt.runFrom_bind_ok (Attempt.runFrom_get a)]
  simp only [hnotice]
  rw [Attempt.runFrom_bind_ok (Attempt.runFrom_ofExcept (.ok notice) a)]
  cases notice with
  | none => exact ⟨a.diagnostics, .inl rfl, rfl⟩
  | some notice =>
    exact ⟨(a.warn notice none).diagnostics, .inr ⟨notice, habout notice rfl, rfl⟩, rfl⟩

/-- Emitting an instruction tells of its length, queues its fixups and emits its number. -/
theorem guarded_emitInstruction (h : 1 ≤ a.width) (instruction : Instruction) :
    ∃ diagnostics, Tells a.diagnostics diagnostics ∧ guarded (emitInstruction instruction) a =
      guarded (emit instruction.opcode instruction.nbits)
        { a with diagnostics, fixups := a.fixups ++ instruction.fixups.toArray } := by
  obtain ⟨diagnostics, htold, hrun⟩ := runFrom_emitInstruction h instruction
  exact ⟨diagnostics, htold.tells, by rw [guarded, hrun, guarded]⟩

/-- Emitting an instruction notes it and stores its words, if they can be held. -/
theorem apply_code (hs : a.Sound) (e : Encoding) :
    ∃ diagnostics, Tells a.diagnostics diagnostics ∧ a.apply (.emit (.code e)) =
    match Capacity.fieldBits a.width with
    | .error fault => (a.noted (a.place (.code e)) diagnostics).stop (.failure fault) none
    | .ok bits =>
      guarded (Attempt.each store
        ((splitWords bits (a.place (.code e)).size (Instruction.pack e.fields)).map
        fun (word : Nat) => (word : Int))) (a.noted (a.place (.code e)) diagnostics) := by
  obtain ⟨diagnostics, htold, hrun⟩ :=
    guarded_emitInstruction hs.width_pos (Instruction.ofFields a.ip a.line e.fields)
  refine ⟨diagnostics, htold, ?_⟩
  rw [apply, perform, guarded_get_bind, guarded_bind_pure, hrun, Instruction.ofFields,
    e.lengthOf_fields]
  refine guarded_emit ?_ _ _
  exact hs.width_pos

/-- An instruction is emitted as it is placed. -/
theorem emitted_code (hs : a.Sound) (e : Encoding) :
    Emitted a (a.place (.code e)) (a.apply (.emit (.code e))) := by
  obtain ⟨diagnostics, htold, hrun⟩ := apply_code hs e
  have hpos := hs.width_pos
  rw [hrun]
  rcases hbits : Capacity.fieldBits a.width with fault | bits
  · obtain ⟨why, rfl⟩ := Capacity.fieldBits_eq_error (by omega) hbits
    refine ⟨rfl, Int.le_refl _, hs.room, (by rintro ⟨⟩), ?_, (by rintro ⟨⟩), fun d hd => ?_⟩
    · rintro (hheld | hsize)
      · rw [show (a.place (.code e)).width = a.width from rfl, hbits] at hheld
        cases hheld
      · rw [← Placed.length_blank, List.length_eq_zero_iff] at hsize
        rw [Placed.writes, hsize]
        rfl
    · rcases mem_diagnostics_stop hd with hd | hd
      · exact htold d hd
      · exact .inr (.inr ⟨why, hd⟩)
  · obtain ⟨-, rfl⟩ := Capacity.fieldBits_eq_ok hbits
    refine emitted_of_each hs htold ?_
    rw [List.map_map]
    refine (List.map_congr_left fun word hword => ?_).trans (List.map_id _)
    obtain ⟨k, -, rfl⟩ := List.mem_map.1 hword
    exact (Bits.low_natCast _ _).trans (Nat.mod_eq_of_lt (wordAt_lt _ _ _ _))

/-- **What an emission does.** -/
theorem emitted (hs : a.Sound) (emission : Emission) :
    Emitted a (a.place emission) (a.apply (.emit emission)) := by
  cases emission with
  | code e => exact emitted_code hs e
  | data tokens => exact emitted_data hs tokens
  | text characters => exact emitted_text hs characters

end Emit

omit [Machine] in
/-- Moving up to a multiple does not move down. -/
theorem le_roundUp (address : Int) {n : Int} (h : 1 ≤ n) : address ≤ -(-address / n) * n := by
  have := Int.ediv_mul_le (-address) (show n ≠ 0 by omega)
  rw [Int.neg_mul]
  omega

/-- Every event keeps an assembler sound. -/
theorem Sound.apply {a : Assembler} (hs : a.Sound) (e : Event) : (a.apply e).Sound := by
  obtain ⟨hwidth, horigin, hpos, hle, hroom⟩ := hs
  cases e with
  | activate set => exact ⟨rfl, horigin, Int.ofNat_lt.2 set.arch.width_pos, hle, hroom⟩
  | origin address => exact ⟨hwidth, rfl, hpos, Int.le_refl _, hroom⟩
  | width n =>
    rw [Assembler.apply, setWidth]
    split
    · exact ⟨hwidth, horigin, hpos, hle, hroom⟩
    · rename_i hn
      exact ⟨rfl, horigin, Int.not_lt.1 hn, hle, hroom⟩
  | align n =>
    rw [Assembler.apply, Assembler.align]
    split
    · exact ⟨hwidth, horigin, hpos, hle, hroom⟩
    · refine ⟨hwidth, horigin, hpos, Int.le_trans hle ?_, hroom⟩
      exact le_roundUp a.ip (by omega)
  | emit emission =>
    have h := emitted ⟨hwidth, horigin, hpos, hle, hroom⟩ emission
    rw [h.frame]
    exact ⟨hwidth, horigin, hpos, Int.le_trans hle h.ip_le, h.room⟩
  | _ => exact ⟨hwidth, horigin, hpos, hle, hroom⟩

/-! ## Following the first pass -/

/-- Whether an assembler has done what a first pass has laid out.  The addresses may differ once
assembly has stopped, and words that cannot be held are met last. -/
structure Follows (a : Assembler) (pass : Pass) : Prop where
  sound : a.Sound
  ip : a.aborted = false → a.ip = pass.ip
  origin : a.origin = pass.origin
  width : a.width = pass.width
  line : a.line = pass.line
  codelen : a.codelen = pass.codelen
  symbols : a.symbols = pass.symbols
  records : a.records.toList = pass.placed.map Placed.record
  fixups : a.fixups.toList = pass.placed.flatMap Placed.fixups
  words : (∀ p ∈ pass.placed, p.Held) →
    a.image.words = Words.depositAll (pass.placed.flatMap Placed.writes) #[]
  held : ∀ p ∈ pass.placed, ¬ p.Held → a.aborted = true ∧ p.origin = a.origin ∧ p.width = a.width
  placed : ∀ p ∈ pass.placed, p.origin ≤ p.address ∧ 1 ≤ p.width ∧ 0 < p.line

section Follows

variable {a b : Assembler} {pass next : Pass}

/-- While a run goes on, all that has been placed is held. -/
theorem Follows.held_of_running (h : Follows a pass) (hab : a.aborted = false) :
    ∀ p ∈ pass.placed, p.Held := by
  intro p hp
  refine Classical.byContradiction fun hno => ?_
  rw [(h.held p hp hno).1] at hab
  cases hab

/-- An event that emits nothing leaves records, fixups and words alone. -/
theorem Follows.of_frame (h : Follows a pass) (hab : a.aborted = false) (sound : b.Sound)
    (ip : b.aborted = false → b.ip = next.ip) (origin : b.origin = next.origin)
    (width : b.width = next.width) (line : b.line = next.line) (codelen : b.codelen = next.codelen)
    (symbols : b.symbols = next.symbols)
    (hrecords : b.records = a.records) (hfixups : b.fixups = a.fixups)
    (hwords : b.image.words = a.image.words) (hplaced : next.placed = pass.placed) :
    Follows b next := by
  refine ⟨sound, ip, origin, width, line, codelen, symbols, ?_, ?_, ?_, ?_, ?_⟩
  · rw [hrecords, hplaced, h.records]
  · rw [hfixups, hplaced, h.fixups]
  · rw [hwords, hplaced]
    exact h.words
  · rw [hplaced]
    exact fun p hp hno => absurd (h.held_of_running hab p hp) hno
  · rw [hplaced]
    exact h.placed

/-- A run and its pass place the next emission alike. -/
theorem Follows.place_eq (h : Follows a pass) (hab : a.aborted = false) (emission : Emission) :
    a.place emission = pass.place emission := by
  rw [place, Pass.place, h.ip hab, h.origin, h.width, h.line]

/-- Emitting what the first pass places next. -/
theorem Follows.emit (h : Follows a pass) (hab : a.aborted = false) (hline : 0 < a.line)
    (emission : Emission) : Follows (a.apply (.emit emission)) (pass.step (.emit emission)) := by
  have hemitted := emitted h.sound emission
  have hsound := h.sound.apply (.emit emission)
  rw [h.place_eq hab] at hemitted
  generalize hb : a.apply (.emit emission) = b at hemitted hsound
  have hrecords : b.records = a.records.push (pass.place emission).record := by rw [hemitted.frame]
  have hfixups : b.fixups =
      a.fixups ++ (pass.place emission).fixups.toArray := by rw [hemitted.frame]
  have horigin : b.origin = pass.origin := by
    rw [hemitted.frame]
    exact h.origin
  have hwidth : b.width = pass.width := by
    rw [hemitted.frame]
    exact h.width
  refine ⟨hsound, fun hrun => ?_, horigin, hwidth, ?_, ?_, ?_, ?_, ?_, fun hheld => ?_,
    fun p hp hno => ?_, fun p hp => ?_⟩
  · rw [hemitted.ip hrun, h.ip hab]
    rfl
  · rw [hemitted.frame]
    exact h.line
  · rw [hemitted.frame]
    exact h.codelen
  · rw [hemitted.frame]
    exact h.symbols
  · rw [hrecords, Array.toList_push, h.records, Pass.step, List.map_append]
    rfl
  · rw [hfixups, Array.toList_append, h.fixups, Pass.step, List.flatMap_append,
      List.flatMap_singleton]
  · rw [hemitted.words (hheld _ (List.mem_append_right _ List.mem_cons_self)),
      h.words fun p hp => hheld p (List.mem_append_left _ hp), Pass.step, List.flatMap_append,
      Words.depositAll_append, List.flatMap_singleton]
  · -- Only the new emission can be one whose words cannot be held, and then it stops the run.
    rcases List.mem_append.1 hp with hp | hp
    · exact absurd (h.held_of_running hab p hp) hno
    · obtain rfl := List.mem_singleton.1 hp
      refine ⟨?_, horigin.symm, hwidth.symm⟩
      cases hrun : b.aborted with
      | true => rfl
      | false => exact absurd (hemitted.held hrun) hno
  · rcases List.mem_append.1 hp with hp | hp
    · exact h.placed p hp
    · obtain rfl := List.mem_singleton.1 hp
      rw [← h.place_eq hab]
      exact ⟨h.sound.origin_le, h.sound.width_pos, hline⟩

/-- **An event does what the first pass makes of it.** -/
theorem Follows.apply (h : Follows a pass) (hab : a.aborted = false) (e : Event)
    (hline : ∀ emission, e = .emit emission → 0 < a.line) : Follows (a.apply e) (pass.step e) := by
  have hsound := h.sound.apply e
  cases e with
  | count =>
    exact h.of_frame hab hsound h.ip h.origin h.width
      (congrArg (· + 1) h.line) h.codelen h.symbols rfl rfl rfl rfl
  | bind name value =>
    exact h.of_frame hab hsound h.ip h.origin h.width h.line h.codelen
      (congrArg (Bindings.bind · name value) h.symbols) rfl rfl rfl rfl
  | tell notice =>
    exact h.of_frame hab hsound h.ip h.origin h.width h.line h.codelen h.symbols rfl rfl rfl rfl
  | halt notice =>
    exact h.of_frame hab hsound
      (by rintro ⟨⟩) h.origin h.width h.line h.codelen h.symbols rfl rfl rfl rfl
  | activate set =>
    exact h.of_frame hab hsound h.ip h.origin rfl h.line h.codelen h.symbols rfl rfl rfl rfl
  | origin address =>
    exact h.of_frame hab hsound
      (fun _ => rfl) rfl h.width h.line h.codelen h.symbols rfl rfl rfl rfl
  | length n =>
    exact h.of_frame hab hsound h.ip h.origin h.width h.line rfl h.symbols rfl rfl rfl rfl
  | width n =>
    rw [Assembler.apply, setWidth] at hsound ⊢
    rw [Pass.step]
    by_cases hn : n < 1
    · rw [if_pos hn] at hsound ⊢
      rw [if_pos hn]
      exact h.of_frame hab hsound
        (by rintro ⟨⟩) h.origin h.width h.line h.codelen h.symbols rfl rfl rfl rfl
    · rw [if_neg hn] at hsound ⊢
      rw [if_neg hn]
      exact h.of_frame hab hsound h.ip h.origin rfl h.line h.codelen h.symbols rfl rfl rfl rfl
  | align n =>
    rw [Assembler.apply, Assembler.align] at hsound ⊢
    rw [Pass.step, ← h.codelen]
    by_cases hn : n < 1 ∨ a.codelen < n
    · rw [if_pos hn] at hsound ⊢
      rw [if_pos hn]
      exact h.of_frame hab hsound
        (by rintro ⟨⟩) h.origin h.width h.line h.codelen h.symbols rfl rfl rfl rfl
    · rw [if_neg hn] at hsound ⊢
      rw [if_neg hn]
      refine h.of_frame hab hsound
        (fun _ => ?_) h.origin h.width h.line rfl h.symbols rfl rfl rfl rfl
      rw [h.ip hab]
  | emit emission => exact h.emit hab (hline emission rfl) emission

end Follows

/-! ## Runs -/

/-- Whether events are met in order: none after assembly has stopped, and nothing is emitted before
the first line. -/
inductive Orderly : Assembler → List Event → Prop where
  | nil {a : Assembler} : Orderly a []
  | cons {a : Assembler} {e : Event} {rest : List Event} (running : a.aborted = false)
      (counted : ∀ emission, e = .emit emission → 0 < a.line) (later : Orderly (a.apply e) rest) :
      Orderly a (e :: rest)

/-- Orderly events go on with orderly ones. -/
theorem orderly_append {a : Assembler} {before after : List Event} (h : Orderly a before)
    (h' : Orderly (replay before a) after) : Orderly a (before ++ after) := by
  induction h with
  | nil => exact h'
  | cons running counted _ ih => exact .cons running counted (ih h')

theorem orderly_singleton {a : Assembler} (hab : a.aborted = false) (hline : 0 < a.line)
    (e : Event) :
    Orderly a [e] :=
  .cons hab (fun _ _ => hline) .nil

/-- A run of events does what the first pass makes of them. -/
theorem Follows.replay {a : Assembler} {pass : Pass} {events : List Event} (ho : Orderly a events)
    (h : Follows a pass) : Follows (replay events a) (pass.run events) := by
  induction ho generalizing pass with
  | nil => exact h
  | cons running counted _ ih => exact ih (h.apply running _ counted)

section Orderly

variable {library : Option Library} {nested : List String → Assembler → List Event}
  (hnested : ∀ lines a, a.aborted = false → 0 < a.line → Orderly a (nested lines a))

/-- The events of an instruction are orderly. -/
theorem orderly_instructionEvents {a : Assembler} (hab : a.aborted = false) (hline : 0 < a.line)
    (text : String) : Orderly a (instructionEvents a text) := by
  rw [instructionEvents]
  repeat' split
  all_goals exact orderly_singleton hab hline _

theorem orderly_archEvents {a : Assembler} (hab : a.aborted = false) (hline : 0 < a.line)
    (name : String) :
    Orderly a (archEvents library name) := by
  unfold archEvents
  repeat' split
  all_goals exact orderly_singleton hab hline _

theorem orderly_numberEvents {a : Assembler} (hab : a.aborted = false) (hline : 0 < a.line)
    (word token : String) (event : Int → Event) : Orderly a (numberEvents word token event) := by
  rw [numberEvents]
  split
  all_goals exact orderly_singleton hab hline _

include hnested

theorem orderly_sourceEvents {a : Assembler} (hab : a.aborted = false) (hline : 0 < a.line)
    (kind : SourceKind) (name : String) : Orderly a (sourceEvents library nested kind name a) := by
  unfold sourceEvents
  repeat' split
  · exact orderly_singleton hab hline _
  · exact orderly_singleton hab hline _
  · exact orderly_singleton hab hline _
  · exact hnested _ a hab hline

/-- The events of a directive are orderly, if the nested ones are. -/
theorem orderly_directiveEvents {a : Assembler} (hab : a.aborted = false) (hline : 0 < a.line)
    (text : String) : Orderly a (directiveEvents library nested a text) := by
  rw [directiveEvents]
  split
  · exact orderly_singleton hab hline _
  · exact orderly_singleton hab hline _
  · exact orderly_singleton hab hline _
  · exact orderly_singleton hab hline _
  · exact orderly_singleton hab hline _
  · exact orderly_singleton hab hline _
  · exact orderly_archEvents hab hline _
  · exact orderly_sourceEvents hnested hab hline _ _
  · exact orderly_numberEvents hab hline _ _ _
  · exact orderly_numberEvents hab hline _ _ _
  · exact orderly_numberEvents hab hline _ _ _
  · exact orderly_numberEvents hab hline _ _ _

/-- The events behind a label are orderly. -/
theorem orderly_bodyEvents {a : Assembler} (hab : a.aborted = false) (hline : 0 < a.line)
    (body : Body) :
    Orderly a (bodyEvents library nested a body) := by
  cases body with
  | nothing => exact .nil
  | directive text =>
    rw [bodyEvents]
    exact orderly_directiveEvents hnested hab hline text
  | instruction text =>
    rw [bodyEvents]
    exact orderly_instructionEvents hab hline text

/-- The front of a line counts it and does not stop, so the rest of it meets a running assembler. -/
theorem orderly_lineEvents {a : Assembler} (hab : a.aborted = false) (line : String) :
    Orderly a (lineEvents library nested line a) := by
  rw [lineEvents]
  generalize Statement.parse line = statement
  obtain ⟨label, body⟩ := statement
  have hfront : Orderly a (headEvents a ⟨label, body⟩) ∧
      (replay (headEvents a ⟨label, body⟩) a).aborted = false ∧
      0 < (replay (headEvents a ⟨label, body⟩) a).line := by
    cases label with
    | none => exact ⟨.cons hab (by rintro _ ⟨⟩) .nil, hab, Nat.succ_pos _⟩
    | some name =>
      exact ⟨.cons hab (by rintro _ ⟨⟩) (.cons hab (by rintro _ ⟨⟩) .nil), hab, Nat.succ_pos _⟩
  obtain ⟨horderly, hab', hline'⟩ := hfront
  exact orderly_append horderly (orderly_bodyEvents hnested hab' hline' body)

/-- The events of lines are orderly, if the nested ones are. -/
theorem orderly_traceLines (lines : List String) (a : Assembler) :
    Orderly a (traceLines (lineEvents library nested) lines a) := by
  induction lines generalizing a with
  | nil => exact .nil
  | cons line rest ih =>
    rw [traceLines]
    split
    · exact .nil
    · rename_i hab
      exact orderly_append (orderly_lineEvents hnested (Bool.eq_false_iff.2 hab) line) (ih _)

end Orderly

/-- The events of included lines are orderly, however deep they are nested. -/
theorem orderly_traceNested (library : Option Library) (depth : Nat) (lines : List String)
    (a : Assembler) (hab : a.aborted = false) (hline : 0 < a.line) :
    Orderly a (traceNested library depth lines a) := by
  induction depth generalizing lines a with
  | zero => exact orderly_singleton hab hline _
  | succ depth ih =>
    exact orderly_traceLines (fun lines a hab hline => ih lines a hab hline) lines a

/-- The events of a program are orderly. -/
theorem orderly_trace (library : Option Library) (lines : List String) (a : Assembler) :
    Orderly a (trace library lines a) :=
  orderly_traceLines (orderly_traceNested library Machine.nesting) lines a

/-- A fresh assembler is where its pass starts. -/
theorem follows_fresh (active : Option InstructionSet) :
    Follows (fresh active) (Pass.start active) := by
  cases active with
  | none =>
    exact ⟨⟨rfl, rfl, by decide, Int.le_refl _, Nat.zero_le _⟩, fun _ => rfl, rfl, rfl, rfl, rfl,
      rfl, rfl, rfl, fun _ => rfl, by rintro _ ⟨⟩, by rintro _ ⟨⟩⟩
  | some set =>
    exact ⟨⟨rfl, rfl, Int.ofNat_lt.2 set.arch.width_pos, Int.le_refl _, Nat.zero_le _⟩,
      fun _ => rfl, rfl, rfl, rfl, rfl, rfl, rfl, rfl, fun _ => rfl, by rintro _ ⟨⟩,
      by rintro _ ⟨⟩⟩

/-- **Every program does what the first pass makes of its events.** -/
theorem follows_assembleLines (library : Option Library) (lines : List String)
    (active : Option InstructionSet) :
    Follows (assembleLines library lines (fresh active))
      ((Pass.start active).run (trace library lines (fresh active))) := by
  rw [assembleLines_eq_replay]
  exact (follows_fresh active).replay (orderly_trace library lines _)

end Assembler

/-! ## Finished programs -/

/-- What symbols flip for an emission in an image that starts at `origin`. -/
def Placed.flips (symbols : String → Option SymbolValue) (origin width : Int) (p : Placed) :
    List (Nat × Nat) :=
  p.fixups.flatMap (Fixup.flips symbols origin width)

namespace Pass

/-- All that a program writes, in order. -/
def writes (pass : Pass) : List (Nat × Nat) :=
  pass.placed.flatMap Placed.writes

/-- All that the symbols flip at the end of a program. -/
def flips (pass : Pass) : List (Nat × Nat) :=
  pass.placed.flatMap (Placed.flips (Bindings.find? pass.symbols) pass.origin pass.width)

/-- What is left of a program after it is finished, by what its first pass has laid out. -/
structure Assembled (pass : Pass) (b : Assembler) : Prop where
  origin : b.origin = pass.origin
  image : b.image = {
    width := pass.width, origin := pass.origin
    words :=
      Words.grow (Words.flipAll pass.width.toNat pass.flips (Words.depositAll pass.writes #[]))
      pass.codelen.toNat }
  room : ∀ f ∈ pass.flips, f.1 < Machine.words
  records : b.records.toList = pass.placed.map fun p => p.record.shownIn b.image
  told : ∀ p ∈ pass.placed, p.address < pass.origin →
    ⟨.belowOrigin p.address pass.origin, p.line, false⟩ ∈ b.diagnostics.toList
  placed : ∀ p ∈ pass.placed, p.origin ≤ p.address ∧ 1 ≤ p.width

end Pass

namespace Assembler

/-- In a program that can be finished all words can be held: the record of the first that cannot
would not be rendered. -/
theorem Follows.held_of_finished {a b : Assembler} {pass : Pass} (h : Follows a pass)
    (hf : Finished a b) :
    ∀ p ∈ pass.placed, p.Held := by
  intro p hp
  refine Classical.byContradiction fun hno => hno ?_
  -- The width has not changed since, so rendering the record would have met the same fault.
  obtain ⟨-, horigin, hwidth⟩ := h.held p hp hno
  obtain ⟨hle, hpos, -⟩ := h.placed p hp
  have hrecord : p.record ∈ a.records.toList := by
    rw [h.records]
    exact List.mem_map_of_mem hp
  have hheld := hf.held p.record hrecord
  rw [h.sound.image_origin, h.sound.image_width, ← horigin, ← hwidth] at hheld
  refine .inl (hheld hle ?_)
  rw [Placed.count_record hpos]
  exact fun hzero => hno (.inr hzero)

/-- A run flips at the end what its pass says. -/
theorem Follows.flips_eq {a : Assembler} {pass : Pass} (h : Follows a pass) :
    a.flips = pass.flips := by
  rw [flips, h.sound.image_origin, h.sound.image_width, h.fixups, h.symbols, h.origin, h.width,
    List.flatMap_assoc]
  rfl

/-- What a finished run has is what its pass assembles. -/
theorem Follows.assembled {a b : Assembler} {pass : Pass} (h : Follows a pass) (hf : Finished a b) :
    pass.Assembled b := by
  have hheld := h.held_of_finished hf
  have hflips := h.flips_eq
  refine ⟨hf.origin.trans h.origin, ?_, ?_, ?_, ?_, ?_⟩
  · simp only [hf.image, h.sound.image_origin, h.sound.image_width, hflips, h.words hheld, h.origin,
      h.width, h.codelen, Pass.writes]
  · rw [← hflips]
    exact hf.room
  · rw [hf.records, h.records, List.map_map]
    rfl
  · intro p hp hbelow
    have hrecord : p.record ∈ a.records.toList := by
      rw [h.records]
      exact List.mem_map_of_mem hp
    have htold := hf.told p.record hrecord
    rw [h.sound.image_origin, h.origin] at htold
    refine htold hbelow ?_
    have hline := (h.placed p hp).2.2
    show (p.line : Int) ≠ 0
    omega
  · exact fun p hp => ⟨(h.placed p hp).1, (h.placed p hp).2.1⟩

/-- The events of a program, from an assembler that has read nothing. -/
def events (library : Option Library) (text : String) (active : Option InstructionSet) :
    List Event :=
  trace library (Text.lines text) (fresh active)

/-- The first pass over a program: where its lines are placed and what its symbols stand for in the
end. -/
def firstPass (library : Option Library) (text : String) (active : Option InstructionSet) : Pass :=
  (Pass.start active).run (events library text active)

/-- **What is left of a program after it is finished.** -/
theorem assembled_of_assemble {library : Option Library} {text : String}
    {active : Option InstructionSet}
    {b : Assembler} (h : (assemble library text).runFrom (fresh active) = (.ok (), b)) :
    (firstPass library text active).Assembled b := by
  have hfollows := follows_assembleLines library (Text.lines text) active
  rw [assemble, Attempt.runFrom_bind_ok (Attempt.runFrom_modify _ _)] at h
  refine hfollows.assembled (finished_of_finish hfollows.sound.room ?_ h)
  have hpos := hfollows.sound.width_pos
  rw [hfollows.sound.image_width]
  omega

end Assembler

end Retarget
