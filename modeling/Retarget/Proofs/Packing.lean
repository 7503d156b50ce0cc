import Retarget.Instruction
import Retarget.Proofs.Words

/-!
# Fields put together

An instruction is one number, its fields standing in it side by side.  A field that waits for a
symbol stands there as zeros, and flipping a value into them is the same as putting the instruction
together with that value from the start.  `concat_filled` says so of whole instructions, and
`wordAt_xor` carries it over to the words that an instruction is cut into.
-/

namespace Retarget

namespace Bits

/-- Bits in front of free places are flipped or added alike. -/
theorem two_pow_mul_add_eq_xor (a : Nat) {b n : Nat} (hb : b < 2 ^ n) :
    2 ^ n * a + b = 2 ^ n * a ^^^ b := by
  refine Nat.eq_of_testBit_eq fun j => ?_
  rw [Nat.testBit_xor, Nat.testBit_two_pow_mul_add a hb, Nat.testBit_two_pow_mul]
  by_cases hj : j < n
  · simp [hj, Nat.not_le.2 hj]
  · have hhigh : b.testBit j = false :=
      Nat.testBit_lt_two_pow (Nat.lt_of_lt_of_le hb
        (Nat.pow_le_pow_right (by decide) (Nat.le_of_not_lt hj)))
    simp [hj, Nat.le_of_not_lt hj, hhigh]

/-- All of some numbers flipped together. -/
def xorAll (ns : List Nat) : Nat :=
  ns.foldr (· ^^^ ·) 0

@[simp] theorem xorAll_nil : xorAll [] = 0 := rfl

@[simp] theorem xorAll_cons (n : Nat) (ns : List Nat) : xorAll (n :: ns) = n ^^^ xorAll ns := rfl

/-- Zeros flip nothing. -/
theorem xorAll_eq_zero {ns : List Nat} (h : ∀ n ∈ ns, n = 0) : xorAll ns = 0 := by
  induction ns with
  | nil => rfl
  | cons n ns ih =>
    rw [xorAll_cons, h n List.mem_cons_self, ih fun m hm => h m (List.mem_cons_of_mem n hm),
      Nat.zero_xor]

/-! ## Numbers side by side -/

/-- Fields side by side as one number, most significant first; each is given by its bits and its
value. -/
def concat (fields : List (Nat × Nat)) : Nat :=
  fields.foldl (fun n field => n * 2 ^ field.1 + field.2) 0

/-- The bits of fields together. -/
def total (fields : List (Nat × Nat)) : Nat :=
  (fields.map Prod.fst).sum

@[simp] theorem concat_nil : concat [] = 0 := rfl

@[simp] theorem total_nil : total [] = 0 := rfl

@[simp] theorem total_cons (field : Nat × Nat) (rest : List (Nat × Nat)) :
    total (field :: rest) = field.1 + total rest := by
  rw [total, List.map_cons, List.sum_cons, ← total]

/-- What stands in front of fields is moved up by all of their bits. -/
theorem foldl_concat (fields : List (Nat × Nat)) (n : Nat) :
    fields.foldl (fun n field => n * 2 ^ field.1 + field.2) n =
      2 ^ total fields * n + concat fields := by
  induction fields generalizing n with
  | nil => simp
  | cons field rest ih =>
    rw [concat, List.foldl_cons, List.foldl_cons, ih, ih, total_cons, Nat.pow_add]
    grind

/-- The first field stands above all bits of the others. -/
theorem concat_cons (field : Nat × Nat) (rest : List (Nat × Nat)) :
    concat (field :: rest) = 2 ^ total rest * field.2 + concat rest := by
  rw [concat, List.foldl_cons, foldl_concat, Nat.zero_mul, Nat.zero_add]

/-- Fields side by side take no more bits than they have together. -/
theorem concat_lt {fields : List (Nat × Nat)} (h : ∀ field ∈ fields, field.2 < 2 ^ field.1) :
    concat fields < 2 ^ total fields := by
  induction fields with
  | nil => simp
  | cons field rest ih =>
    have hrest := ih fun f hf => h f (List.mem_cons_of_mem field hf)
    have hfield : field.2 + 1 ≤ 2 ^ field.1 := h field List.mem_cons_self
    rw [concat_cons, total_cons]
    calc 2 ^ total rest * field.2 + concat rest
        < 2 ^ total rest * field.2 + 2 ^ total rest := Nat.add_lt_add_left hrest _
      _ = 2 ^ total rest * (field.2 + 1) := by rw [Nat.mul_add, Nat.mul_one]
      _ ≤ 2 ^ total rest * 2 ^ field.1 := Nat.mul_le_mul_left _ hfield
      _ = 2 ^ (field.1 + total rest) := by rw [Nat.mul_comm, Nat.pow_add]

end Bits

/-! ## Numbers cut into words -/

/-- A word of a natural number, by division and remainder. -/
theorem wordAt_natCast (width count n k : Nat) :
    wordAt width count (n : Int) k = n / 2 ^ ((count - 1 - k) * width) % 2 ^ width := by
  have hdrop : Bits.drop ((count - 1 - k) * width) (n : Int) =
      ((n / 2 ^ ((count - 1 - k) * width) : Nat) : Int) := by
    rw [Bits.drop_eq, Int.natCast_ediv, Int.natCast_pow]
    rfl
  rw [wordAt, hdrop, Bits.low_natCast]

/-- A word has no more bits than words have. -/
theorem wordAt_lt (width count : Nat) (value : Int) (k : Nat) :
    wordAt width count value k < 2 ^ width :=
  Bits.low_lt width _

@[simp] theorem wordAt_zero (width count k : Nat) : wordAt width count 0 k = 0 := by
  have := wordAt_natCast width count 0 k
  rw [Nat.zero_div, Nat.zero_mod] at this
  exact this

/-- Flipping bits of a number flips them in its words. -/
theorem wordAt_xor (width count m n k : Nat) :
    wordAt width count ((m ^^^ n : Nat) : Int) k =
      wordAt width count (m : Int) k ^^^ wordAt width count (n : Int) k := by
  simp only [wordAt_natCast, Nat.xor_div_two_pow, Nat.xor_mod_two_pow]

/-- Flipping numbers together flips their words together. -/
theorem wordAt_xorAll (width count : Nat) (ns : List Nat) (k : Nat) :
    wordAt width count (Bits.xorAll ns : Nat) k =
      Bits.xorAll (ns.map fun (n : Nat) => wordAt width count n k) := by
  induction ns with
  | nil => exact wordAt_zero width count k
  | cons n ns ih => rw [Bits.xorAll_cons, wordAt_xor, ih, List.map_cons, Bits.xorAll_cons]

/-! ## Fields -/

section Lists

variable {α β γ ε : Type} {f : α → Except ε β}

/-- An attempt on a list that succeeds does so on its head and on its tail. -/
theorem mapM_cons_eq_ok {x : α} {xs : List α} {ys : List β} (h : (x :: xs).mapM f = .ok ys) :
    ∃ y more, f x = .ok y ∧ xs.mapM f = .ok more ∧ ys = y :: more := by
  rw [List.mapM_cons] at h
  rcases hx : f x with fault | y
  · rw [hx] at h
    cases h
  rcases hxs : xs.mapM f with fault | more
  · rw [hx, hxs] at h
    cases h
  · rw [hx, hxs] at h
    cases h
    exact ⟨y, more, rfl, rfl, rfl⟩

/-- Attempts that are the same on each element of a list are the same on the list. -/
theorem mapM_congr {g : α → Except ε β} {xs : List α} (h : ∀ x ∈ xs, f x = g x) :
    xs.mapM f = xs.mapM g := by
  induction xs with
  | nil => rfl
  | cons x rest ih =>
    obtain ⟨hx, hrest⟩ := List.forall_mem_cons.1 h
    rw [List.mapM_cons, List.mapM_cons, hx, ih hrest]

/-- A traversal that succeeds gives each element its result. -/
theorem forall₂_of_mapM {xs : List α} {ys : List β} (h : xs.mapM f = .ok ys) :
    List.Forall₂ (fun x y => f x = .ok y) xs ys := by
  induction xs generalizing ys with
  | nil =>
    cases h
    exact .nil
  | cons x xs ih =>
    obtain ⟨y, more, hx, hxs, rfl⟩ := mapM_cons_eq_ok h
    exact .cons hx (ih hxs)

/-- What holds of each result of an attempt on a list holds along the list. -/
theorem map_eq_of_mapM {g : α → γ} {g' : β → γ} (hg : ∀ x y, f x = .ok y → g' y = g x) {xs : List α}
    {ys : List β} (h : xs.mapM f = .ok ys) : ys.map g' = xs.map g := by
  have heq : List.Forall₂ (fun x y => g x = g' y) xs ys :=
    (forall₂_of_mapM h).imp fun x y hxy => (hg x y hxy).symm
  rw [← List.forall₂_map_right_iff, ← List.forall₂_map_left_iff, List.forall₂_eq_eq_eq] at heq
  exact heq.symm

/-- Each result of an attempt on a list is the result on one of its elements. -/
theorem exists_of_mem_mapM {xs : List α} {ys : List β} (h : xs.mapM f = .ok ys) {y : β}
    (hy : y ∈ ys) :
    ∃ x ∈ xs, f x = .ok y := by
  induction xs generalizing ys with
  | nil =>
    cases h
    cases hy
  | cons x xs ih =>
    obtain ⟨first, more, hx, hxs, rfl⟩ := mapM_cons_eq_ok h
    rcases List.mem_cons.1 hy with rfl | hy
    · exact ⟨x, List.mem_cons_self, hx⟩
    · obtain ⟨z, hz, hzy⟩ := ih hxs hy
      exact ⟨z, List.mem_cons_of_mem x hz, hzy⟩

/-- An attempt on a list fails as it does on the first of its elements on which it fails. -/
theorem first_of_mapM_error {xs : List α} {error : ε} (h : xs.mapM f = .error error) :
    ∃ before x after, xs = before ++ x :: after ∧ (∀ y ∈ before, ∃ z, f y = .ok z) ∧
      f x = .error error := by
  induction xs with
  | nil => cases h
  | cons x rest ih =>
    rw [List.mapM_cons] at h
    rcases hx : f x with other | z
    · rw [hx] at h
      cases h
      exact ⟨[], x, rest, rfl, List.forall_mem_nil _, hx⟩
    rcases hrest : rest.mapM f with other | zs
    · rw [hx, hrest] at h
      cases h
      obtain ⟨before, y, after, rfl, hbefore, hy⟩ := ih hrest
      exact ⟨x :: before, y, after, rfl, List.forall_mem_cons.2 ⟨⟨z, hx⟩, hbefore⟩, hy⟩
    · rw [hx, hrest] at h
      cases h

/-- An attempt on a list that fails does so on one of its elements. -/
theorem exists_of_mapM_error {xs : List α} {error : ε} (h : xs.mapM f = .error error) :
    ∃ x ∈ xs, f x = .error error := by
  obtain ⟨before, x, after, rfl, -, hx⟩ := first_of_mapM_error h
  exact ⟨x, List.mem_append_right before List.mem_cons_self, hx⟩

/-- An attempt on a list succeeds if it does on each of its elements, and only then. -/
theorem exists_mapM_iff {xs : List α} :
    (∃ ys, xs.mapM f = .ok ys) ↔ ∀ x ∈ xs, ∃ y, f x = .ok y := by
  constructor
  · rintro ⟨ys, h⟩
    induction xs generalizing ys with
    | nil => exact List.forall_mem_nil _
    | cons x rest ih =>
      obtain ⟨y, more, hx, hrest, -⟩ := mapM_cons_eq_ok h
      exact List.forall_mem_cons.2 ⟨⟨y, hx⟩, ih more hrest⟩
  · intro h
    rcases hresult : xs.mapM f with error | ys
    · obtain ⟨x, hx, herror⟩ := exists_of_mapM_error hresult
      obtain ⟨y, hy⟩ := h x hx
      rw [herror] at hy
      cases hy
    · exact ⟨ys, rfl⟩

end Lists

/-- Bits in a row are fields of one bit. -/
theorem bitsValue_eq_concat (digits : List Bool) :
    bitsValue digits = Bits.concat (digits.map fun digit => (1, digit.toNat)) := by
  rw [bitsValue, Radix.value, Bits.concat, List.foldl_map, List.foldl_map]
  rfl

/-- Bits in a row make a number of so many bits. -/
theorem bitsValue_lt (digits : List Bool) : bitsValue digits < 2 ^ digits.length := by
  have htotal : Bits.total (digits.map fun digit => (1, digit.toNat)) = digits.length := by
    induction digits with
    | nil => rfl
    | cons digit rest ih => rw [List.map_cons, Bits.total_cons, ih, List.length_cons, Nat.add_comm]
  rw [bitsValue_eq_concat, ← htotal]
  refine Bits.concat_lt fun field hfield => ?_
  obtain ⟨digit, -, rfl⟩ := List.mem_map.1 hfield
  cases digit <;> decide

/-- The bits of an entry of a layout. -/
def Arch.bitsOf (arch : Arch) : Entry → Nat
  | .bits digits => digits.length
  | .operand _ name => (arch.find? name).elim 0 Variable.bits

namespace Field

/-- Whether the value of a field fits into it, and is zero while the field waits for a symbol. -/
structure Sound (f : Field) : Prop where
  fits : f.value < 2 ^ f.bits
  blank : f.pending ≠ none → f.value = 0

/-- How an operand gives a field to a variable: by the place of a token, by a number that is
written, or by a symbol, for which it is zero. -/
inductive Given (v : Variable) (token : String) : Field → Prop
  | token {names : List String} {i : Nat} (hdomain : v.domain = .tokens names)
      (hplace : tokenIndex? names token = some i) (hfits : i < 2 ^ v.bits) :
      Given v token ⟨v.bits, i, none⟩
  | number {relative : Bool} {offset : Int} {n : Nat} (hdomain : v.domain = .number relative offset)
      (hvalue : Literal.parse token = .ok n) (hfits : n < 2 ^ v.bits) :
      Given v token ⟨v.bits, n, none⟩
  | symbol {relative : Bool} {offset : Int} (hdomain : v.domain = .number relative offset)
      (hvalue : ∀ value, Literal.parse token ≠ .ok value) :
      Given v token ⟨v.bits, 0, some ⟨token, relative, offset⟩⟩

/-- A field has the bits of its variable. -/
theorem Given.bits_eq {v : Variable} {token : String} {f : Field} (h : Given v token f) :
    f.bits = v.bits := by
  cases h <;> rfl

/-- A field that an operand gives is sound. -/
theorem Given.sound {v : Variable} {token : String} {f : Field} (h : Given v token f) :
    f.Sound := by
  cases h with
  | token _ _ hfits => exact ⟨hfits, fun hpending => absurd rfl hpending⟩
  | number _ _ hfits => exact ⟨hfits, fun hpending => absurd rfl hpending⟩
  | symbol _ _ => exact ⟨Nat.two_pow_pos v.bits, fun _ => rfl⟩

/-- The value of a field once `fill` gives values to what fields wait for. -/
def filled (fill : Pending → Nat → Nat) (f : Field) : Nat :=
  match f.pending with
  | none => f.value
  | some p => fill p f.bits

end Field

/-- A sound field still fits once it is filled. -/
theorem Field.Sound.filled_lt {f : Field} (h : f.Sound) {fill : Pending → Nat → Nat}
    (hfill : ∀ p bits, fill p bits < 2 ^ bits) : f.filled fill < 2 ^ f.bits := by
  rw [Field.filled]
  split
  · exact h.fits
  · exact hfill _ _

/-- What the field of a fixup waits for. -/
def Fixup.pending (fix : Fixup) : Pending :=
  ⟨fix.sym, fix.iprel, fix.ipofs⟩

namespace Instruction

/-- Fields put together behind the bits of an opcode, most significant first. -/
def packAfter (opcode : Nat) (fields : List Field) : Nat :=
  fields.foldl (fun opcode field => opcode <<< field.bits + field.value) opcode

/-- Fields put together, most significant first. -/
def pack (fields : List Field) : Nat :=
  packAfter 0 fields

/-- The instruction that a list of fields makes at an address. -/
def ofFields (address line : Int) (fields : List Field) : Instruction :=
  ⟨pack fields, lengthOf fields, fixupsOf address line (lengthOf fields) 0 fields⟩

/-- Putting fields together is setting their values side by side. -/
theorem pack_eq_concat (fields : List Field) :
    pack fields = Bits.concat (fields.map fun f => (f.bits, f.value)) := by
  rw [pack, packAfter, Bits.concat, List.foldl_map]
  simp only [Nat.shiftLeft_eq]

theorem lengthOf_cons (f : Field) (rest : List Field) :
    lengthOf (f :: rest) = f.bits + lengthOf rest := rfl

/-- An instruction has the bits of its fields together. -/
theorem lengthOf_eq_sum (fields : List Field) : lengthOf fields = (fields.map Field.bits).sum := by
  induction fields with
  | nil => rfl
  | cons f rest ih => rw [lengthOf_cons, ih, List.map_cons, List.sum_cons]

/-- The bits of an instruction, whatever values its fields have. -/
theorem lengthOf_eq_total (fields : List Field) (value : Field → Nat) :
    lengthOf fields = Bits.total (fields.map fun f => (f.bits, value f)) := by
  rw [lengthOf_eq_sum, Bits.total, List.map_map]
  rfl

/-- The first field of an instruction stands above all bits of the others. -/
theorem pack_cons (f : Field) (rest : List Field) :
    pack (f :: rest) = 2 ^ lengthOf rest * f.value + pack rest := by
  rw [pack_eq_concat, List.map_cons, Bits.concat_cons, ← pack_eq_concat, ← lengthOf_eq_total]

/-- Sound fields make a number of as many bits as they have together. -/
theorem pack_lt {fields : List Field} (h : ∀ f ∈ fields, f.Sound) :
    pack fields < 2 ^ lengthOf fields := by
  rw [pack_eq_concat, lengthOf_eq_total fields Field.value]
  refine Bits.concat_lt fun field hfield => ?_
  obtain ⟨f, hf, rfl⟩ := List.mem_map.1 hfield
  exact (h f hf).fits

/-- **Flipping values into the fields that wait for them gives the instruction with these
values.** -/
theorem concat_filled {fields : List Field} (hsound : ∀ f ∈ fields, f.Sound)
    {fill : Pending → Nat → Nat} (hfill : ∀ p bits, fill p bits < 2 ^ bits) (address line : Int)
    {nbits bitofs : Nat} (hlength : bitofs + lengthOf fields = nbits) :
    Bits.concat (fields.map fun f => (f.bits, f.filled fill)) =
      pack fields ^^^ Bits.xorAll ((fixupsOf address line nbits bitofs fields).map fun fix =>
        2 ^ (fix.nbits - fix.bitofs - fix.bitlen).toNat * fill fix.pending fix.bitlen.toNat) := by
  induction fields generalizing bitofs with
  | nil => simp [pack, packAfter, fixupsOf]
  | cons f rest ih =>
    have hf : f.Sound := hsound f List.mem_cons_self
    have hrest : ∀ g ∈ rest, g.Sound := fun g hg => hsound g (List.mem_cons_of_mem f hg)
    rw [lengthOf_cons] at hlength
    have hconcat := ih hrest (show bitofs + f.bits + lengthOf rest = nbits by omega)
    have hlt : Bits.concat (rest.map fun g => (g.bits, g.filled fill)) < 2 ^ lengthOf rest := by
      rw [lengthOf_eq_total rest (Field.filled fill)]
      refine Bits.concat_lt fun field hfield => ?_
      obtain ⟨g, hg, rfl⟩ := List.mem_map.1 hfield
      exact (hrest g hg).filled_lt hfill
    rw [List.map_cons, Bits.concat_cons, ← lengthOf_eq_total, Bits.two_pow_mul_add_eq_xor _ hlt,
      hconcat, pack_cons, Bits.two_pow_mul_add_eq_xor _ (pack_lt hrest), fixupsOf, Field.filled]
    -- A field that waits was packed as zero, and its fixup has as many bits below it as the rest.
    rcases hpending : f.pending with _ | p
    · rw [List.nil_append, Nat.xor_assoc]
    · have hshift : ((nbits : Int) - bitofs - f.bits).toNat = lengthOf rest := by omega
      have hzero : f.value = 0 := hf.blank (by rw [hpending]; exact Option.some_ne_none p)
      simp only [List.singleton_append, List.map_cons, Bits.xorAll_cons, hshift, hzero,
        Nat.mul_zero, Nat.zero_xor, Fixup.pending, Int.toNat_natCast]
      rw [← Nat.xor_assoc, ← Nat.xor_assoc, Nat.xor_comm (pack rest)]

end Instruction

variable [Machine]

/-! ## Fields of operands -/

namespace Field

/-- A number makes a field, or does not fit into it, or no field may be so wide. -/
theorem ofValue_cases (bits : Nat) (value : Int) (pending : Option Pending) :
    (Capacity.fieldBits bits = .ok bits ∧ (0 ≤ value ∧ value < 2 ^ bits) ∧
        ofValue bits value pending = .ok ⟨bits, value.toNat, pending⟩) ∨
      (Capacity.fieldBits bits = .ok bits ∧ ¬(0 ≤ value ∧ value < 2 ^ bits) ∧
        ofValue bits value pending =
          .error (Fault.showing [value] (.rejected (.tooWide value bits)))) ∨
      ∃ why, Capacity.fieldBits bits = .error (.excess why) ∧
        ofValue bits value pending = .error (.excess why) := by
  unfold ofValue
  rcases hbits : Capacity.fieldBits bits with fault | n
  · obtain ⟨why, rfl⟩ := Capacity.fieldBits_eq_error (Int.natCast_nonneg bits) hbits
    exact .inr (.inr ⟨why, rfl, rfl⟩)
  · obtain rfl : n = bits := (Capacity.fieldBits_eq_ok hbits).2
    by_cases hfits : 0 ≤ value ∧ value < 2 ^ n
    · exact .inl ⟨rfl, hfits, if_pos (Bits.fits_iff.2 hfits)⟩
    · exact .inr (.inl ⟨rfl, hfits, if_neg (mt Bits.fits_iff.1 hfits)⟩)

/-- A field that a number makes has the number as its value, and it fits. -/
theorem ofValue_eq_ok {bits : Nat} {value : Int} {pending : Option Pending} {f : Field}
    (h : ofValue bits value pending = .ok f) :
    (0 ≤ value ∧ value < 2 ^ bits) ∧ f = ⟨bits, value.toNat, pending⟩ := by
  rcases ofValue_cases bits value pending with ⟨-, hfits, hok⟩ | ⟨-, -, herror⟩ | ⟨why, -, herror⟩
  · rw [hok] at h
    cases h
    exact ⟨hfits, rfl⟩
  · rw [herror] at h
    cases h
  · rw [herror] at h
    cases h

/-- An operand gives a field to a variable in one of three ways. -/
theorem given_of_ofOperand {v : Variable} {token : String} {f : Field}
    (h : ofOperand v token = .ok f) : Given v token f := by
  unfold ofOperand at h
  cases hdomain : v.domain with
  | tokens names =>
    simp only [hdomain] at h
    cases hplace : tokenIndex? names token with
    | none =>
      rw [hplace] at h
      cases h
    | some i =>
      simp only [hplace] at h
      obtain ⟨⟨-, hlt⟩, rfl⟩ := ofValue_eq_ok h
      exact .token hdomain hplace (by exact_mod_cast hlt)
  | number relative offset =>
    simp only [hdomain] at h
    cases hvalue : Literal.parse token with
    | error fault =>
      simp only [hvalue] at h
      obtain ⟨-, rfl⟩ := ofValue_eq_ok h
      refine .symbol hdomain ?_
      intro value hparse
      rw [hvalue] at hparse
      cases hparse
    | ok value =>
      simp only [hvalue] at h
      obtain ⟨⟨hle, hlt⟩, rfl⟩ := ofValue_eq_ok h
      obtain ⟨n, rfl⟩ := Int.eq_ofNat_of_zero_le hle
      exact .number hdomain hvalue (by exact_mod_cast hlt)

/-- An entry for an operand finds the operand and the variable, and the one gives the field to the
other. -/
theorem given_of_ofEntry {arch : Arch} {operands : List String} {index : Nat} {name : String}
    {f : Field} (h : ofEntry arch operands (.operand index name) = .ok f) :
    ∃ token v, operands[index]? = some token ∧ arch.find? name = some v ∧ Given v token f := by
  unfold ofEntry at h
  cases htoken : operands[index]? with
  | none =>
    simp only [htoken] at h
    cases h
  | some token =>
    cases hname : arch.find? name with
    | none =>
      simp only [htoken, Arch.scope, hname, Option.map_none] at h
      cases h
    | some v =>
      simp only [htoken, Arch.scope, hname, Option.map_some] at h
      exact ⟨token, v, rfl, rfl, given_of_ofOperand h⟩

/-- Every field that a rule gives to operands is sound. -/
theorem sound_of_ofEntry {arch : Arch} {operands : List String} {entry : Entry} {f : Field}
    (h : ofEntry arch operands entry = .ok f) : f.Sound := by
  cases entry with
  | bits digits =>
    obtain ⟨-, rfl⟩ := ofValue_eq_ok h
    exact ⟨bitsValue_lt digits, fun hpending => absurd rfl hpending⟩
  | operand index name =>
    obtain ⟨token, v, -, -, hgiven⟩ := given_of_ofEntry h
    exact hgiven.sound

/-- A field has the bits of its entry. -/
theorem bits_of_ofEntry {arch : Arch} {operands : List String} {entry : Entry} {f : Field}
    (h : ofEntry arch operands entry = .ok f) : f.bits = arch.bitsOf entry := by
  cases entry with
  | bits digits =>
    obtain ⟨-, rfl⟩ := ofValue_eq_ok h
    rfl
  | operand index name =>
    obtain ⟨token, v, -, hname, hgiven⟩ := given_of_ofEntry h
    rw [hgiven.bits_eq, Arch.bitsOf, hname]
    rfl

/-- A field that waits for a symbol has bits. -/
theorem bits_pos_of_ofEntry {arch : Arch} {operands : List String} {entry : Entry} {f : Field}
    (h : ofEntry arch operands entry = .ok f) (hpending : f.pending ≠ none) : 0 < f.bits := by
  cases entry with
  | bits digits =>
    obtain ⟨-, rfl⟩ := ofValue_eq_ok h
    exact absurd rfl hpending
  | operand index name =>
    obtain ⟨token, v, -, -, hgiven⟩ := given_of_ofEntry h
    rw [hgiven.bits_eq]
    exact v.bits_pos

end Field

/-! ## Building -/

namespace Instruction

/-- An instruction has the bits of the entries of its layout. -/
theorem lengthOf_of_mapM {arch : Arch} {operands : List String} {layout : List Entry}
    {fields : List Field} (h : layout.mapM (Field.ofEntry arch operands) = .ok fields) :
    lengthOf fields = (layout.map arch.bitsOf).sum := by
  rw [lengthOf_eq_sum, map_eq_of_mapM (fun _ _ => Field.bits_of_ofEntry) h]

/-- A field is put behind an opcode if that can be moved up, and is too large otherwise. -/
theorem after_cases (f : Field) (opcode : Nat) :
    (Capacity.Moves opcode f.bits ∧ f.after opcode = .ok (opcode <<< f.bits + f.value)) ∨
      (¬Capacity.Moves opcode f.bits ∧ ∃ why, f.after opcode = .error (.excess why)) := by
  rw [Field.after]
  refine (Capacity.shiftUp_natCast_cases opcode f.bits).imp ?_ ?_
  · rintro ⟨hmoves, hshift⟩
    refine ⟨hmoves, ?_⟩
    rw [hshift, Nat.shiftLeft_eq]
    rfl
  · rintro ⟨hmoves, why, hshift⟩
    refine ⟨hmoves, why, ?_⟩
    rw [hshift]
    rfl

/-- Whether fields can be put behind the bits of an opcode one after the other. -/
def Stacks : (opcode : Nat) → List Field → Prop
  | _, [] => True
  | opcode, f :: rest => Capacity.Moves opcode f.bits ∧ Stacks (opcode <<< f.bits + f.value) rest

/-- A field among others can be put behind those in front of it. -/
theorem Stacks.moves {opcode : Nat} {before after : List Field} {f : Field}
    (h : Stacks opcode (before ++ f :: after)) :
    Capacity.Moves (packAfter opcode before) f.bits := by
  induction before generalizing opcode with
  | nil => exact h.1
  | cons first rest ih => exact ih h.2

variable {arch : Arch} {operands : List String} {layout : List Entry} {fields : List Field}
  {opcode : Nat}

/-- **A layout gives its fields and their opcode** if every entry gives a field and every field can
be put behind those in front of it. -/
theorem fieldsAfter_eq_ok {packed : Nat} :
    fieldsAfter arch operands opcode layout = .ok (fields, packed) ↔
      layout.mapM (Field.ofEntry arch operands) = .ok fields ∧ Stacks opcode fields ∧
        packed = packAfter opcode fields := by
  induction layout generalizing opcode fields with
  | nil =>
    constructor
    · intro h
      cases h
      exact ⟨rfl, trivial, rfl⟩
    · rintro ⟨h, -, rfl⟩
      cases h
      rfl
  | cons entry rest ih =>
    rw [fieldsAfter]
    constructor
    · intro h
      rcases hfield : Field.ofEntry arch operands entry with fault | f
      · rw [hfield] at h
        cases h
      rcases after_cases f opcode with ⟨hmoves, hafter⟩ | ⟨-, why, hafter⟩
      · rcases hrest : fieldsAfter arch operands (opcode <<< f.bits + f.value) rest with
          fault | ⟨more, last⟩
        · rw [hfield] at h
          simp only [bind, Except.bind, hafter, hrest] at h
          cases h
        · rw [hfield] at h
          simp only [bind, Except.bind, hafter, hrest] at h
          cases h
          obtain ⟨hmore, hstacks, rfl⟩ := ih.1 hrest
          refine ⟨?_, ⟨hmoves, hstacks⟩, rfl⟩
          rw [List.mapM_cons, hfield, hmore]
          rfl
      · rw [hfield] at h
        simp only [bind, Except.bind, hafter] at h
        cases h
    · rintro ⟨h, hstacks, rfl⟩
      obtain ⟨f, more, hfield, hmore, rfl⟩ := mapM_cons_eq_ok h
      have hrest := ih.2 ⟨hmore, hstacks.2, rfl⟩
      rcases after_cases f opcode with ⟨-, hafter⟩ | ⟨hnot, -⟩
      · simp only [hfield, bind, Except.bind, hafter, hrest]
      · exact absurd hstacks.1 hnot

/-- The opcode that comes with the fields of a layout is the one that they make. -/
theorem pack_of_fieldsAfter {found : List Field × Nat}
    (h : fieldsAfter arch operands 0 layout = .ok found) :
    fieldsAfter arch operands 0 layout = .ok (found.1, pack found.1) := by
  rw [h, pack, ← (fieldsAfter_eq_ok.1 h).2.2]

/-- A layout fails as its first entry does that gives no field, or whose field cannot be put behind
those in front of it. -/
theorem first_of_fieldsAfter_error {fault : Fault}
    (h : fieldsAfter arch operands opcode layout = .error fault) :
    ∃ before entry after fields, layout = before ++ entry :: after ∧
      before.mapM (Field.ofEntry arch operands) = .ok fields ∧ Stacks opcode fields ∧
      (Field.ofEntry arch operands entry = .error fault ∨
        ∃ f why, Field.ofEntry arch operands entry = .ok f ∧
          ¬Capacity.Moves (packAfter opcode fields) f.bits ∧ fault = .excess why) := by
  induction layout generalizing opcode with
  | nil => cases h
  | cons entry rest ih =>
    rw [fieldsAfter] at h
    rcases hfield : Field.ofEntry arch operands entry with other | f
    · rw [hfield] at h
      cases h
      exact ⟨[], entry, rest, [], rfl, rfl, trivial, .inl hfield⟩
    rcases after_cases f opcode with ⟨hmoves, hafter⟩ | ⟨hnot, why, hafter⟩
    · rcases hrest : fieldsAfter arch operands (opcode <<< f.bits + f.value) rest with
        other | result
      · simp only [hfield, bind, Except.bind, hafter, hrest] at h
        cases h
        obtain ⟨before, other, after, fields, rfl, hbefore, hstacks, hother⟩ := ih hrest
        refine ⟨entry :: before, other, after, f :: fields, rfl, ?_, ⟨hmoves, hstacks⟩, hother⟩
        rw [List.mapM_cons, hfield, hbefore]
        rfl
      · simp only [hfield, bind, Except.bind, hafter, hrest] at h
        cases h
    · simp only [hfield, bind, Except.bind, hafter] at h
      cases h
      exact ⟨[], entry, rest, [], rfl, rfl, trivial, .inr ⟨f, why, hfield, hnot, rfl⟩⟩

/-- Building an instruction is finding its fields and putting them together. -/
theorem build_eq (arch : Arch) (rule : Rule) (operands : List String) (address line : Int) :
    build arch rule operands address line =
      (fieldsAfter arch operands 0 rule.layout).map fun found =>
        ofFields address line found.1 := by
  rw [build]
  rcases hfound : fieldsAfter arch operands 0 rule.layout with fault | ⟨fields, opcode⟩
  · rfl
  · obtain ⟨-, -, rfl⟩ := fieldsAfter_eq_ok.1 hfound
    rfl

end Instruction

end Retarget
