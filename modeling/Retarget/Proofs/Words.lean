import Mathlib
import Retarget.Image

/-!
# Words in place

The words of an image change in two ways: a word is written at a place, or some of its bits are
flipped.  Either way the image grows with zeros as far as the place.  Here both are pure functions
on rows of words, described place by place: after any number of writes a place holds the last word
written there (`get_depositAll`), and after any number of flips the word there and all that was
flipped into it (`get_flipAll`), in whatever order (`flipAll_perm`).

The attempts on an image are then one of these two, or fail for want of room
(`Image.put_of_reaches`, `Image.flip_of_reaches`, `Image.modifyAt_of_no_room`).
-/

namespace Retarget

namespace Words

theorem get_eq_getElem {words : Array Nat} {i : Nat} (h : i < words.size) :
    get words i = words[i] := by
  rw [get, Array.getElem?_eq_getElem h, Option.getD_some]

/-- Behind the last word there are zeros. -/
theorem get_of_size_le {words : Array Nat} {i : Nat} (h : words.size ≤ i) : get words i = 0 := by
  rw [get, Array.getElem?_eq_none h, Option.getD_none]

@[simp] theorem get_empty (i : Nat) : get #[] i = 0 := rfl

/-- Rows of words with the same length and the same word at every place are equal. -/
theorem ext {u v : Array Nat} (hsize : u.size = v.size) (hget : ∀ i, get u i = get v i) :
    u = v := by
  refine Array.ext hsize fun i hu hv => ?_
  rw [← get_eq_getElem hu, ← get_eq_getElem hv, hget]

/-! ## Growing -/

/-- The words with zeros behind them, at least `length` long. -/
def grow (words : Array Nat) (length : Nat) : Array Nat :=
  words ++ Array.replicate (length - words.size) 0

@[simp] theorem size_grow (words : Array Nat) (length : Nat) :
    (grow words length).size = max words.size length := by
  simp only [grow, Array.size_append, Array.size_replicate]
  omega

/-- Growing changes no word. -/
@[simp] theorem get_grow (words : Array Nat) (length i : Nat) :
    get (grow words length) i = get words i := by
  by_cases h : i < words.size
  · rw [get, get, grow, Array.getElem?_append_left h]
  · rw [get_of_size_le (Nat.le_of_not_lt h), get, grow,
      Array.getElem?_append_right (Nat.le_of_not_lt h), Array.getElem?_replicate]
    split <;> rfl

/-! ## Writing -/

/-- The words with one of them written. -/
def deposit (words : Array Nat) (place word : Nat) : Array Nat :=
  (grow words (place + 1)).setIfInBounds place word

@[simp] theorem size_deposit (words : Array Nat) (place word : Nat) :
    (deposit words place word).size = max words.size (place + 1) := by
  rw [deposit, Array.size_setIfInBounds, size_grow]

/-- A deposit changes the word at its place. -/
theorem get_deposit (words : Array Nat) (place word i : Nat) :
    get (deposit words place word) i = if place = i then word else get words i := by
  rw [get, deposit, Array.getElem?_setIfInBounds]
  by_cases h : place = i
  · have hlt : place < (grow words (place + 1)).size := by rw [size_grow]; omega
    rw [if_pos h, if_pos hlt, if_pos h, Option.getD_some]
  · rw [if_neg h, if_neg h]
    exact get_grow words (place + 1) i

/-- The words after writes in order, each a place and the word for it. -/
def depositAll (writes : List (Nat × Nat)) (words : Array Nat) : Array Nat :=
  writes.foldl (fun words write => deposit words write.1 write.2) words

@[simp] theorem depositAll_nil (words : Array Nat) : depositAll [] words = words := rfl

@[simp] theorem depositAll_cons (write : Nat × Nat) (rest : List (Nat × Nat)) (words : Array Nat) :
    depositAll (write :: rest) words = depositAll rest (deposit words write.1 write.2) := rfl

@[simp] theorem depositAll_append (before after : List (Nat × Nat)) (words : Array Nat) :
    depositAll (before ++ after) words = depositAll after (depositAll before words) := by
  rw [depositAll, List.foldl_append, ← depositAll, ← depositAll]

/-- The last word that is written at a place. -/
def lastWrite (writes : List (Nat × Nat)) (i : Nat) : Option Nat :=
  (writes.reverse.find? (·.1 == i)).map Prod.snd

@[simp] theorem lastWrite_nil (i : Nat) : lastWrite [] i = none := rfl

theorem lastWrite_cons (write : Nat × Nat) (rest : List (Nat × Nat)) (i : Nat) :
    lastWrite (write :: rest) i =
      (lastWrite rest i).or (if write.1 = i then some write.2 else none) := by
  simp only [lastWrite, List.reverse_cons, List.find?_append, Option.map_or, List.find?_singleton,
    beq_iff_eq]
  split <;> rfl

/-- A later write counts before an earlier one. -/
theorem lastWrite_append (before after : List (Nat × Nat)) (i : Nat) :
    lastWrite (before ++ after) i = (lastWrite after i).or (lastWrite before i) := by
  simp only [lastWrite, List.reverse_append, List.find?_append, Option.map_or]

/-- A place that is not written has no last write. -/
theorem lastWrite_eq_none {writes : List (Nat × Nat)} {i : Nat}
    (h : ∀ write ∈ writes, write.1 ≠ i) :
    lastWrite writes i = none := by
  rw [lastWrite, Option.map_eq_none_iff, List.find?_eq_none]
  intro write hmem
  simpa using h write (List.mem_reverse.1 hmem)

/-- The last write at a place is one of the writes. -/
theorem mem_of_lastWrite {writes : List (Nat × Nat)} {i word : Nat}
    (h : lastWrite writes i = some word) :
    (i, word) ∈ writes := by
  obtain ⟨write, hfind, rfl⟩ := Option.map_eq_some_iff.1 h
  have hplace : write.1 = i := by simpa using List.find?_some hfind
  have hmem := List.mem_reverse.1 (List.mem_of_find?_eq_some hfind)
  rwa [← hplace]

/-- How far writes reach. -/
def extent (writes : List (Nat × Nat)) : Nat :=
  writes.foldr (fun write reached => max (write.1 + 1) reached) 0

@[simp] theorem extent_nil : extent [] = 0 := rfl

@[simp] theorem extent_cons (write : Nat × Nat) (rest : List (Nat × Nat)) :
    extent (write :: rest) = max (write.1 + 1) (extent rest) := rfl

/-- Writes reach as far as the farthest of them. -/
theorem extent_le_iff {writes : List (Nat × Nat)} {n : Nat} :
    extent writes ≤ n ↔ ∀ write ∈ writes, write.1 < n := by
  induction writes with
  | nil => simp
  | cons write rest ih =>
    simp only [extent_cons, Nat.max_le, ih, List.forall_mem_cons, Nat.succ_le_iff]

/-- The place of a write lies within the words afterwards. -/
theorem lt_extent {writes : List (Nat × Nat)} {write : Nat × Nat} (h : write ∈ writes) :
    write.1 < extent writes :=
  extent_le_iff.1 (Nat.le_refl _) write h

theorem extent_append (before after : List (Nat × Nat)) :
    extent (before ++ after) = max (extent before) (extent after) := by
  induction before with
  | nil => simp
  | cons write rest ih => rw [List.cons_append, extent_cons, extent_cons, ih, Nat.max_assoc]

theorem extent_flatMap_congr {α : Type} {xs : List α} {f g : α → List (Nat × Nat)}
    (h : ∀ x ∈ xs, extent (f x) = extent (g x)) :
    extent (xs.flatMap f) = extent (xs.flatMap g) := by
  induction xs with
  | nil => rfl
  | cons x xs ih =>
    rw [List.flatMap_cons, List.flatMap_cons, extent_append, extent_append, h x List.mem_cons_self,
      ih fun y hy => h y (List.mem_cons_of_mem x hy)]

/-- Words are as many as before, or as many as the deposits reach. -/
theorem size_depositAll (writes : List (Nat × Nat)) (words : Array Nat) :
    (depositAll writes words).size = max words.size (extent writes) := by
  induction writes generalizing words with
  | nil => simp
  | cons write rest ih =>
    rw [depositAll_cons, ih, size_deposit, extent_cons]
    omega

/-- **A place holds the last word written there**, or what it held before. -/
theorem get_depositAll (writes : List (Nat × Nat)) (words : Array Nat) (i : Nat) :
    get (depositAll writes words) i = (lastWrite writes i).getD (get words i) := by
  induction writes generalizing words with
  | nil => rfl
  | cons write rest ih =>
    rw [depositAll_cons, ih, lastWrite_cons, get_deposit]
    cases lastWrite rest i with
    | some word => rfl
    | none => by_cases h : write.1 = i <;> simp [h]

/-! ## Flipping -/

/-- The words with some bits of one of them flipped, which is cut to `width` bits. -/
def flip (width : Nat) (words : Array Nat) (place bits : Nat) : Array Nat :=
  deposit words place (get words place % 2 ^ width ^^^ bits)

/-- The words after flips in order, each a place and the bits to flip there. -/
def flipAll (width : Nat) (flips : List (Nat × Nat)) (words : Array Nat) : Array Nat :=
  flips.foldl (fun words f => flip width words f.1 f.2) words

@[simp] theorem flipAll_nil (width : Nat) (words : Array Nat) :
    flipAll width [] words = words := rfl

@[simp] theorem flipAll_cons (width : Nat) (f : Nat × Nat) (rest : List (Nat × Nat))
    (words : Array Nat) :
    flipAll width (f :: rest) words = flipAll width rest (flip width words f.1 f.2) := rfl

@[simp] theorem flipAll_append (width : Nat) (before after : List (Nat × Nat)) (words : Array Nat) :
    flipAll width (before ++ after) words = flipAll width after (flipAll width before words) := by
  rw [flipAll, List.foldl_append, ← flipAll, ← flipAll]

/-- All the bits that are flipped at a place. -/
def flipsAt (flips : List (Nat × Nat)) (i : Nat) : Nat :=
  flips.foldr (fun f bits => (if f.1 = i then f.2 else 0) ^^^ bits) 0

@[simp] theorem flipsAt_nil (i : Nat) : flipsAt [] i = 0 := rfl

@[simp] theorem flipsAt_cons (f : Nat × Nat) (rest : List (Nat × Nat)) (i : Nat) :
    flipsAt (f :: rest) i = (if f.1 = i then f.2 else 0) ^^^ flipsAt rest i := rfl

theorem flipsAt_append (before after : List (Nat × Nat)) (i : Nat) :
    flipsAt (before ++ after) i = flipsAt before i ^^^ flipsAt after i := by
  induction before with
  | nil => rw [List.nil_append, flipsAt_nil, Nat.zero_xor]
  | cons f rest ih => rw [List.cons_append, flipsAt_cons, flipsAt_cons, ih, Nat.xor_assoc]

/-- Where nothing is flipped no bits are. -/
theorem flipsAt_eq_zero {flips : List (Nat × Nat)} {i : Nat} (h : ∀ f ∈ flips, f.1 ≠ i) :
    flipsAt flips i = 0 := by
  induction flips with
  | nil => rfl
  | cons f rest ih =>
    rw [flipsAt_cons, if_neg (h f List.mem_cons_self),
      ih fun g hg => h g (List.mem_cons_of_mem f hg), Nat.zero_xor]

/-- Flips within a width are within it together. -/
theorem flipsAt_lt {width : Nat} {flips : List (Nat × Nat)} (h : ∀ f ∈ flips, f.2 < 2 ^ width)
    (i : Nat) : flipsAt flips i < 2 ^ width := by
  induction flips with
  | nil => exact Nat.two_pow_pos width
  | cons f rest ih =>
    obtain ⟨hf, hrest⟩ := List.forall_mem_cons.1 h
    rw [flipsAt_cons]
    apply Nat.xor_lt_two_pow ?_ (ih hrest)
    split
    · exact hf
    · exact Nat.two_pow_pos width

/-- Words are as many as before, or as many as the flips reach. -/
theorem size_flipAll (width : Nat) (flips : List (Nat × Nat)) (words : Array Nat) :
    (flipAll width flips words).size = max words.size (extent flips) := by
  induction flips generalizing words with
  | nil => simp
  | cons f rest ih =>
    rw [flipAll_cons, ih, flip, size_deposit, extent_cons]
    omega

/-- A place holds its word and all the bits flipped there; any flip cuts the word. -/
theorem get_flipAll_eq {width : Nat} {flips : List (Nat × Nat)}
    (hflips : ∀ f ∈ flips, f.2 < 2 ^ width) (words : Array Nat) (i : Nat) :
    get (flipAll width flips words) i =
      if flips.any (·.1 == i) then get words i % 2 ^ width ^^^ flipsAt flips i
      else get words i := by
  induction flips generalizing words with
  | nil => rfl
  | cons f rest ih =>
    have hf : f.2 < 2 ^ width := hflips f List.mem_cons_self
    -- Once cut, a word stays as narrow, so that the next flip cuts nothing off.
    have hcut : (get words i % 2 ^ width ^^^ f.2) % 2 ^ width = get words i % 2 ^ width ^^^ f.2 :=
      Nat.mod_eq_of_lt (Nat.xor_lt_two_pow (Nat.mod_lt _ (Nat.two_pow_pos width)) hf)
    rw [flipAll_cons, ih fun g hg => hflips g (List.mem_cons_of_mem f hg), flip, get_deposit,
      flipsAt_cons, List.any_cons]
    by_cases h : f.1 = i
    · subst h
      rw [if_pos rfl, if_pos rfl, beq_self_eq_true, Bool.true_or, if_pos rfl, hcut]
      split
      · rw [Nat.xor_assoc]
      · rename_i hrest
        rw [flipsAt_eq_zero fun g hg hg' => hrest (List.any_eq_true.2 ⟨g, hg, beq_iff_eq.2 hg'⟩),
          Nat.xor_zero]
    · rw [if_neg h, if_neg h, beq_eq_false_iff_ne.2 h, Bool.false_or, Nat.zero_xor]

/-- **A place holds its word and all the bits flipped there.** -/
theorem get_flipAll {width : Nat} {flips : List (Nat × Nat)} {words : Array Nat} {i : Nat}
    (hflips : ∀ f ∈ flips, f.2 < 2 ^ width) (hi : get words i < 2 ^ width) :
    get (flipAll width flips words) i = get words i ^^^ flipsAt flips i := by
  rw [get_flipAll_eq hflips, Nat.mod_eq_of_lt hi]
  split
  · rfl
  · rename_i hnone
    rw [flipsAt_eq_zero fun f hf hplace => hnone (List.any_eq_true.2 ⟨f, hf, beq_iff_eq.2 hplace⟩),
      Nat.xor_zero]

/-- How far flips reach does not depend on their order. -/
theorem extent_perm {flips flips' : List (Nat × Nat)} (h : flips.Perm flips') :
    extent flips = extent flips' := by
  apply Nat.le_antisymm
  · rw [extent_le_iff]
    intro f hf
    exact lt_extent (h.mem_iff.1 hf)
  · rw [extent_le_iff]
    intro f hf
    exact lt_extent (h.mem_iff.2 hf)

/-- What is flipped at a place does not depend on the order. -/
theorem flipsAt_perm {flips flips' : List (Nat × Nat)} (h : flips.Perm flips') (i : Nat) :
    flipsAt flips i = flipsAt flips' i := by
  induction h with
  | nil => rfl
  | cons f _ ih => rw [flipsAt_cons, flipsAt_cons, ih]
  | swap f g rest =>
    rw [flipsAt_cons, flipsAt_cons, flipsAt_cons, flipsAt_cons, ← Nat.xor_assoc, ← Nat.xor_assoc,
      Nat.xor_comm (if g.1 = i then g.2 else 0)]
  | trans _ _ ih ih' => rw [ih, ih']

/-- **Flips may be made in any order**, also where they meet and where words are cut. -/
theorem flipAll_perm {width : Nat} {flips flips' : List (Nat × Nat)} (h : flips.Perm flips')
    (hflips : ∀ f ∈ flips, f.2 < 2 ^ width) (words : Array Nat) :
    flipAll width flips words = flipAll width flips' words := by
  have hflips' : ∀ f ∈ flips', f.2 < 2 ^ width := fun f hf => hflips f (h.mem_iff.2 hf)
  apply ext
  · rw [size_flipAll, size_flipAll, extent_perm h]
  · intro i
    rw [get_flipAll_eq hflips, get_flipAll_eq hflips', h.any_eq, flipsAt_perm h]

end Words

/-! ## Bits of integers -/

namespace Bits

/-- A number fits into `n` bits if it is below the `n`-th power of two. -/
theorem fits_iff {n : Nat} {value : Int} : fits n value = true ↔ 0 ≤ value ∧ value < 2 ^ n := by
  simp only [fits, Bool.and_eq_true, decide_eq_true_eq, Bool.or_eq_true, beq_iff_eq]
  constructor
  · rintro ⟨hv, h⟩
    refine ⟨hv, ?_⟩
    rcases h with rfl | h
    · exact Int.pow_pos (by decide)
    · by_cases h0 : value.toNat = 0
      · have : value = 0 := by omega
        rw [this]; exact Int.pow_pos (by decide)
      · have := (Nat.log2_lt h0).mp h
        have hc : ((2 ^ n : Nat) : Int) = (2 : Int) ^ n := by simp
        omega
  · rintro ⟨hv, h⟩
    refine ⟨hv, ?_⟩
    by_cases h0 : value = 0
    · exact Or.inl h0
    · refine Or.inr ((Nat.log2_lt (by omega)).mpr ?_)
      have hc : ((2 ^ n : Nat) : Int) = (2 : Int) ^ n := by simp
      omega

/-- The low bits of an integer are its remainder by a power of two. -/
theorem low_eq (n : Nat) (value : Int) : low n value = (value % 2 ^ n).toNat := by
  unfold low
  split
  · rename_i h
    obtain ⟨h0, h1⟩ := fits_iff.mp h
    rw [Int.emod_eq_of_lt h0 h1]
  · rw [Nat.one_shiftLeft, Nat.cast_pow, Nat.cast_ofNat]

/-- The low bits of an integer are a number below a power of two. -/
theorem low_lt (n : Nat) (value : Int) : low n value < 2 ^ n := by
  have hp : (0 : Int) < 2 ^ n := Int.pow_pos (by decide)
  have h := Int.emod_lt_of_pos value hp
  have h0 := Int.emod_nonneg value (Int.ne_of_gt hp)
  have hc : ((2 ^ n : Nat) : Int) = (2 : Int) ^ n := by simp
  rw [low_eq]
  omega

/-- The low bits of a natural number. -/
theorem low_natCast (n m : Nat) : low n (m : Int) = m % 2 ^ n := by
  rw [low_eq, ← Int.toNat_natCast (m % 2 ^ n), Int.natCast_emod, Int.natCast_pow]
  rfl

/-- Dropping bits divides by a power of two. -/
theorem drop_eq (n : Nat) (value : Int) : drop n value = value / 2 ^ n := by
  rw [drop, Int.shiftRight_eq_div_pow]
  simp

end Bits

/-! ## Room -/

variable [Machine]

namespace Capacity

/-- A list can grow as far as there is room. -/
theorem checkGrowth_eq_ok {size length : Nat} :
    checkGrowth size length = .ok () ↔ length ≤ size ∨ length ≤ Machine.words := by
  have hbound := Machine.words_lt
  rw [checkGrowth]
  by_cases hsize : length ≤ size
  · rw [if_pos hsize]
    exact ⟨fun _ => .inl hsize, fun _ => rfl⟩
  by_cases hroom : length ≤ Machine.words
  · rw [if_neg hsize, if_neg (by omega), if_neg (by omega)]
    exact ⟨fun _ => .inr hroom, fun _ => rfl⟩
  · rw [if_neg hsize]
    refine ⟨fun h => ?_, fun h => by omega⟩
    split at h
    · cases h
    · rw [if_pos (by omega)] at h
      cases h

/-- What cannot be held exceeds a limit. -/
theorem checkGrowth_eq_error {size length : Nat} {fault : Fault}
    (h : checkGrowth size length = .error fault) : ∃ why, fault = .excess why := by
  rw [checkGrowth] at h
  repeat' split at h
  all_goals cases h
  all_goals exact ⟨_, rfl⟩

/-- A text can be held if there is room for its characters. -/
theorem checkText_eq_ok {length : Nat} : checkText length = .ok () ↔ length ≤ Machine.text := by
  rw [checkText]
  split
  · rename_i hlong
    exact ⟨nofun, fun h => absurd hlong (Nat.not_lt.2 h)⟩
  · rename_i hshort
    exact ⟨fun _ => Nat.le_of_not_lt hshort, fun _ => rfl⟩

/-- A text for which there is room is held as it is, and another is too large. -/
theorem holdText_eq (s : String) :
    holdText s = if s.length ≤ Machine.text then .ok s else .error (.excess .room) := by
  rw [holdText, checkText]
  by_cases h : s.length ≤ Machine.text
  · rw [if_neg (Nat.not_lt.2 h), if_pos h]
    rfl
  · rw [if_pos (Nat.lt_of_not_le h), if_neg h]
    rfl

/-- A text is held if there is room for it. -/
theorem holdText_eq_ok {s text : String} :
    holdText s = .ok text ↔ s.length ≤ Machine.text ∧ text = s := by
  rw [holdText_eq]
  split
  · rename_i h
    rw [Except.ok.injEq]
    exact ⟨fun heq => ⟨h, heq.symm⟩, fun heq => heq.2.symm⟩
  · rename_i h
    exact ⟨nofun, fun heq => absurd heq.1 h⟩

/-- A number can be held if there is room for its digits. -/
theorem checkDigits_eq_ok {count : Nat} : checkDigits count = .ok () ↔ count ≤ Machine.digits := by
  have hlimit : Machine.digits ≤ digitLimit := by
    have := Machine.digits_lt
    simp only [digitLimit, countBound] at this ⊢
    omega
  rw [checkDigits]
  by_cases hcount : count ≤ Machine.digits
  · rw [if_neg (by omega), if_neg (by omega)]
    exact ⟨fun _ => hcount, fun _ => rfl⟩
  · refine ⟨fun h => ?_, fun h => absurd h hcount⟩
    split at h
    · cases h
    · rw [if_pos (by omega)] at h
      cases h

/-- A number that cannot be held is too large. -/
theorem checkDigits_eq_error {count : Nat} {fault : Fault} (h : checkDigits count = .error fault) :
    ∃ why, fault = .excess why := by
  rw [checkDigits] at h
  repeat' split at h
  all_goals cases h
  all_goals exact ⟨_, rfl⟩

/-- Moving a number up multiplies it by a power of two. -/
theorem shiftUp_eq_ok {value n placed : Int} (h : shiftUp value n = .ok placed) :
    0 ≤ n ∧ placed = value * 2 ^ n.toNat := by
  rw [shiftUp] at h
  split at h
  · cases h
  · rename_i hn
    refine ⟨Int.not_lt.1 hn, ?_⟩
    split at h
    · rename_i hzero
      cases h
      rw [hzero, Int.zero_mul]
    · rcases hc : checkDigits (digitCount value.natAbs + digitsFor n.toNat) with fault | u
      · rw [hc] at h
        cases h
      · rw [hc] at h
        cases h
        rw [Nat.shiftLeft_eq, Nat.one_mul, Int.natCast_pow]
        rfl

/-- A number that cannot be moved up is too large then. -/
theorem shiftUp_eq_error {value n : Int} (hn : 0 ≤ n) {fault : Fault}
    (h : shiftUp value n = .error fault) : ∃ why, fault = .excess why := by
  rw [shiftUp, if_neg (by omega)] at h
  split at h
  · cases h
  · rcases hc : checkDigits (digitCount value.natAbs + digitsFor n.toNat) with other | u
    · rw [hc] at h
      cases h
      exact checkDigits_eq_error hc
    · rw [hc] at h
      cases h

/-- Whether a number can be moved up by `n` bits: it is zero, or there is room for the digits that
it has then. -/
def Moves (value n : Nat) : Prop :=
  value = 0 ∨ digitCount value + digitsFor n ≤ Machine.digits

instance (value n : Nat) : Decidable (Moves value n) :=
  inferInstanceAs (Decidable (_ ∨ _))

/-- A number is moved up if it can be, and is too large otherwise. -/
theorem shiftUp_natCast_cases (value n : Nat) :
    (Moves value n ∧ shiftUp value n = .ok (value * 2 ^ n : Nat)) ∨
      (¬Moves value n ∧ ∃ why, shiftUp value n = .error (.excess why)) := by
  rcases h : shiftUp value n with fault | placed
  · obtain ⟨why, rfl⟩ := shiftUp_eq_error (Int.natCast_nonneg n) h
    refine .inr ⟨fun hmoves => ?_, why, rfl⟩
    rw [shiftUp, if_neg (by omega)] at h
    split at h
    · cases h
    · rename_i hne
      rw [Int.natAbs_natCast, Int.toNat_natCast,
        checkDigits_eq_ok.2 (hmoves.resolve_left (by exact_mod_cast hne))] at h
      cases h
  · refine .inl ⟨?_, ?_⟩
    · rw [shiftUp, if_neg (by omega)] at h
      split at h
      · rename_i hzero
        exact .inl (by exact_mod_cast hzero)
      · rw [Int.natAbs_natCast, Int.toNat_natCast] at h
        rcases hc : checkDigits (digitCount value + digitsFor n) with fault | u
        · rw [hc] at h
          cases h
        · exact .inr (checkDigits_eq_ok.1 hc)
    · rw [(shiftUp_eq_ok h).2, Int.toNat_natCast, Int.natCast_mul, Int.natCast_pow]
      rfl

/-- A field that no number of bits can be counted in is too wide. -/
theorem fieldBits_eq_error {width : Int} (hwidth : 0 ≤ width) {fault : Fault}
    (h : fieldBits width = .error fault) : ∃ why, fault = .excess why := by
  rw [fieldBits, if_neg (Int.not_lt.2 hwidth)] at h
  rcases hc : checkDigits (1 + digitsFor width.toNat) with other | u
  · rw [hc] at h
    cases h
    exact checkDigits_eq_error hc
  · rw [hc] at h
    cases h

/-- A field has as many bits as it is wide. -/
theorem fieldBits_eq_ok {width : Int} {bits : Nat} (h : fieldBits width = .ok bits) :
    0 ≤ width ∧ bits = width.toNat := by
  rw [fieldBits] at h
  split at h
  · cases h
  · rename_i hneg
    rcases hc : checkDigits (1 + digitsFor width.toNat) with fault | u
    · rw [hc] at h; cases h
    · rw [hc] at h; cases h
      exact ⟨Int.not_lt.1 hneg, rfl⟩

end Capacity

/-! ## Attempts on an image -/

namespace Image

/-- The place of an address in an image, for an address that is not in front of it. -/
def place (image : Image) (address : Int) : Nat :=
  (address - image.origin).toNat

omit [Machine] in
/-- An address has an index unless it is in front of the image. -/
theorem index_eq_ok {image : Image} {address : Int} {i : Nat} :
    image.index address = .ok i ↔ image.origin ≤ address ∧ i = image.place address := by
  rw [index, place]
  split
  · refine ⟨nofun, fun h => ?_⟩
    omega
  · rw [Except.ok.injEq]
    omega

/-- An image grows if there is room for it. -/
theorem pad_eq_ok {image grown : Image} {length : Int} :
    image.pad length = .ok grown ↔
      (length.toNat ≤ image.words.size ∨ length.toNat ≤ Machine.words) ∧
        grown = { image with words := Words.grow image.words length.toNat } := by
  rw [← Capacity.checkGrowth_eq_ok, pad]
  rcases Capacity.checkGrowth image.words.size length.toNat with fault | u
  · exact ⟨nofun, nofun⟩
  · refine ⟨fun h => ?_, fun h => ?_⟩
    · cases h
      exact ⟨rfl, rfl⟩
    · rw [h.2]
      rfl

/-- An image that does not grow would be too large. -/
theorem pad_eq_error {image : Image} {length : Int} {fault : Fault}
    (h : image.pad length = .error fault) : ∃ why, fault = .excess why := by
  rw [pad] at h
  rcases hc : Capacity.checkGrowth image.words.size length.toNat with other | u
  · rw [hc] at h
    cases h
    exact Capacity.checkGrowth_eq_error hc
  · rw [hc] at h
    cases h

/-- Whether an address has a place in an image, or there is room for one. -/
def Reaches (image : Image) (address : Int) : Prop :=
  image.origin ≤ address ∧
    (image.place address < image.words.size ∨ image.place address < Machine.words)

/-- How many words an image has, or could have. -/
def room (image : Image) : Nat :=
  max image.words.size Machine.words

theorem room_eq_words {image : Image} (h : image.words.size ≤ Machine.words) :
    image.room = Machine.words :=
  Nat.max_eq_right h

/-- An address behind the origin has a place if there is room for it. -/
theorem reaches_iff {image : Image} {address : Int} (horigin : image.origin ≤ address) :
    image.Reaches address ↔ image.place address < image.room := by
  rw [Reaches, room, lt_max_iff]
  exact and_iff_right horigin

/-- A change of a word grows the image up to its place and writes the new word. -/
theorem modifyAt_of_reaches {image : Image} {address : Int} (h : image.Reaches address)
    (change : Nat → Except Fault Nat) :
    (modifyAt address change).runFrom image =
      match change (Words.get image.words (image.place address)) with
      | .error fault =>
        (.error fault, { image with words := Words.grow image.words (image.place address + 1) })
      | .ok word =>
        (.ok (), { image with words := Words.deposit image.words (image.place address) word }) := by
  have hindex := index_eq_ok.2 ⟨h.1, rfl⟩
  have hpad : image.pad (image.place address + 1 : Nat) = .ok _ :=
    pad_eq_ok.2 ⟨by rw [Int.toNat_natCast]; exact h.2, rfl⟩
  rw [Int.toNat_natCast, Int.natCast_add, Int.natCast_one] at hpad
  rw [Attempt.runFrom, modifyAt]
  simp only [hindex]
  rw [hpad]
  change (match change (Words.get image.words (image.place address)) with
    | .error fault => _
    | .ok word => _) = _
  rcases change (Words.get image.words (image.place address)) with fault | word <;> rfl

/-- Behind the origin only room can be missing for a word, and then nothing is changed. -/
theorem modifyAt_of_no_room {image : Image} {address : Int} (horigin : image.origin ≤ address)
    (h : ¬ image.Reaches address) (change : Nat → Except Fault Nat) :
    ∃ why, (modifyAt address change).runFrom image = (.error (.excess why), image) := by
  have hindex : image.index address = .ok (image.place address) := index_eq_ok.2 ⟨horigin, rfl⟩
  rw [Attempt.runFrom, modifyAt]
  simp only [hindex]
  rcases hpad : image.pad (image.place address + 1) with fault | grown
  · obtain ⟨why, rfl⟩ := pad_eq_error hpad
    exact ⟨why, rfl⟩
  · have := (pad_eq_ok.1 hpad).1
    exact absurd ⟨horigin, by omega⟩ h

theorem lowBits_of_fieldBits {width : Int} {bits : Nat} (h : Capacity.fieldBits width = .ok bits)
    (value : Int) : lowBits width value = .ok (Bits.low bits value) := by
  rw [lowBits, h]
  rfl

/-- Writing a word. -/
theorem put_of_reaches {image : Image} {address : Int} (h : image.Reaches address) {bits : Nat}
    (hbits : Capacity.fieldBits image.width = .ok bits) (value : Int) :
    (put address value).runFrom image =
      (.ok (), { image with
        words := Words.deposit image.words (image.place address) (Bits.low bits value) }) := by
  refine (modifyAt_of_reaches h fun _ => lowBits image.width value).trans ?_
  rw [lowBits_of_fieldBits hbits]

/-- Flipping bits of a word that there is room for. -/
theorem flip_of_reaches {image : Image} {address : Int} (h : image.Reaches address)
    (hbits : Capacity.fieldBits image.width = .ok image.width.toNat) {bits : Nat}
    (hlt : bits < 2 ^ image.width.toNat) :
    (flip address bits).runFrom image = (.ok (), { image with
      words := Words.flip image.width.toNat image.words (image.place address) bits }) := by
  refine (modifyAt_of_reaches h _).trans ?_
  simp only [lowBits_of_fieldBits hbits, Bits.low_natCast, Nat.mod_eq_of_lt hlt]
  rfl

end Image

end Retarget
