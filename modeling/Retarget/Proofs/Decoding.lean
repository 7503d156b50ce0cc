import Retarget.Proofs.Writable

/-!
# Decoding emitted instructions

The words of an instruction are one number, the most significant word first, and the layout of its
rule says how the number is cut into fields.  Reading the words back and cutting the number again
gives what the rule laid out (`record_reads_back`): bits that were given as such, the place of a
token among those of its variable, a number that was written, and zero for a symbol that is still
unknown.  The words are the only ones that the line has changed, and the next address is right
behind them.

Cutting is `Bits.slices`.  It undoes putting fields together (`slices_concat`), and words of one
width are slices as well (`splitWords_eq_slices`).
-/

namespace Retarget

/-! ## Cutting numbers into fields -/

namespace Bits

/-- A number cut into fields of these widths, from its most significant end on. -/
def slices (n : Nat) : (widths : List Nat) → List Nat
  | [] => []
  | bits :: rest => n / 2 ^ rest.sum % 2 ^ bits :: slices n rest

@[simp] theorem slices_nil (n : Nat) : slices n [] = [] := rfl

@[simp] theorem slices_cons (n bits : Nat) (rest : List Nat) :
    slices n (bits :: rest) = n / 2 ^ rest.sum % 2 ^ bits :: slices n rest := rfl

/-- Bits above all fields do not count. -/
theorem slices_add (m n : Nat) (widths : List Nat) :
    slices (2 ^ widths.sum * m + n) widths = slices n widths := by
  induction widths generalizing m with
  | nil => rfl
  | cons bits rest ih =>
    have hmore : 2 ^ (bits :: rest).sum * m + n = 2 ^ rest.sum * (2 ^ bits * m) + n := by
      rw [List.sum_cons, Nat.pow_add]
      ring
    rw [slices_cons, slices_cons, hmore, ih, Nat.mul_add_div (Nat.two_pow_pos _),
      Nat.mul_add_mod]

/-- **Cutting undoes putting together**, if every field holds its value. -/
theorem slices_concat {fields : List (Nat × Nat)} (h : ∀ field ∈ fields, field.2 < 2 ^ field.1) :
    slices (concat fields) (fields.map Prod.fst) = fields.map Prod.snd := by
  induction fields with
  | nil => rfl
  | cons field rest ih =>
    obtain ⟨hfield, hrest⟩ := List.forall_mem_cons.1 h
    have hlow : concat rest < 2 ^ (rest.map Prod.fst).sum := concat_lt hrest
    rw [List.map_cons, List.map_cons, slices_cons, concat_cons, total, slices_add, ih hrest,
      Nat.mul_add_div (Nat.two_pow_pos _), Nat.div_eq_of_lt hlow, Nat.add_zero,
      Nat.mod_eq_of_lt hfield]

theorem value_eq_concat (width : Nat) (words : List Nat) :
    Radix.value (2 ^ width) words = concat (words.map fun word => (width, word)) := by
  rw [Radix.value, concat, List.foldl_map]

/-- Slices of one width are the digits of a number in a power of two. -/
theorem value_slices (n count width : Nat) :
    Radix.value (2 ^ width) (slices n (List.replicate count width)) = n % 2 ^ (count * width) := by
  have htotal : ∀ words : List Nat,
      total (words.map fun word => (width, word)) = words.length * width := by
    intro words
    induction words with
    | nil => simp
    | cons word rest ih =>
      rw [List.map_cons, total_cons, ih, List.length_cons]
      ring
  have hlength : ∀ widths : List Nat, (slices n widths).length = widths.length := by
    intro widths
    induction widths with
    | nil => rfl
    | cons bits rest ih => rw [slices_cons, List.length_cons, ih, List.length_cons]
  induction count with
  | zero => simp [Radix.value, Nat.mod_one]
  | succ count ih =>
    rw [List.replicate_succ, slices_cons, value_eq_concat, List.map_cons, concat_cons, htotal,
      hlength, ← value_eq_concat, ih, List.sum_replicate, List.length_replicate, smul_eq_mul,
      Nat.succ_mul,
      Nat.pow_add, Nat.mod_mul]
    ring

end Bits

/-- The words of a number are its slices of one width. -/
theorem splitWords_eq_slices (width count n : Nat) :
    splitWords width count n = Bits.slices n (List.replicate count width) := by
  induction count with
  | zero => rfl
  | succ count ih =>
    rw [List.replicate_succ, Bits.slices_cons, ← ih, splitWords, splitWords, List.range_succ_eq_map,
      List.map_cons, List.map_map, wordAt_natCast, List.sum_replicate, smul_eq_mul]
    congr 1
    apply List.map_congr_left
    intro k _
    simp only [Function.comp]
    rw [wordAt_natCast, wordAt_natCast, show count + 1 - 1 - k.succ = count - 1 - k by omega]

/-- Words for bits have room for them. -/
theorem le_wordsFor_mul (nbits : Nat) {width : Nat} (h : 0 < width) :
    nbits ≤ wordsFor nbits width * width := by
  have hlt := Nat.lt_div_mul_add (a := nbits + width - 1) h
  rw [wordsFor]
  omega

/-- The words of a number that they have room for give it back. -/
theorem value_splitWords {n nbits width : Nat} (hwidth : 0 < width) (h : n < 2 ^ nbits) :
    Radix.value (2 ^ width) (splitWords width (wordsFor nbits width) n) = n := by
  rw [splitWords_eq_slices, Bits.value_slices]
  apply Nat.mod_eq_of_lt
  calc n < 2 ^ nbits := h
    _ ≤ 2 ^ (wordsFor nbits width * width) :=
      Nat.pow_le_pow_right (by omega) (le_wordsFor_mul nbits hwidth)

/-- Words behind the origin can be read. -/
theorem Image.read_of_le {image : Image} {address : Int} (h : image.origin ≤ address) :
    image.read address = .ok (Words.get image.words (image.place address)) := by
  rw [Image.read, Image.index_eq_ok.2 ⟨h, rfl⟩]
  rfl

/-! ## Fields of a layout -/

/-- What an entry of a layout reads as in an instruction with these operands. -/
inductive Entry.Reads (arch : Arch) (operands : List String) : Entry → Nat → Prop
  /-- Bits read as they are, one by one. -/
  | bits {digits : List Bool} {n : Nat}
      (h : Bits.slices n (List.replicate digits.length 1) = digits.map Bool.toNat) :
      Reads arch operands (.bits digits) n
  /-- A token reads as its place among those of its variable. -/
  | token {index i : Nat} {name token : String} {v : Variable} {names : List String}
      (hoperand : operands[index]? = some token) (hname : arch.find? name = some v)
      (hdomain : v.domain = .tokens names) (hplace : tokenIndex? names token = some i) :
      Reads arch operands (.operand index name) i
  /-- A number reads as itself. -/
  | number {index n : Nat} {name token : String} {v : Variable} {relative : Bool} {offset : Int}
      (hoperand : operands[index]? = some token) (hname : arch.find? name = some v)
      (hdomain : v.domain = .number relative offset) (hvalue : Literal.parse token = .ok n) :
      Reads arch operands (.operand index name) n
  /-- What is no number is a symbol, and reads as zero. -/
  | symbol {index : Nat} {name token : String} {v : Variable} {relative : Bool} {offset : Int}
      (hoperand : operands[index]? = some token) (hname : arch.find? name = some v)
      (hdomain : v.domain = .number relative offset)
      (hvalue : ∀ value, Literal.parse token ≠ .ok value) :
      Reads arch operands (.operand index name) 0

theorem slices_bitsValue (digits : List Bool) :
    Bits.slices (bitsValue digits) (List.replicate digits.length 1) = digits.map Bool.toNat := by
  have hfields : ∀ field ∈ digits.map fun digit => (1, digit.toNat), field.2 < 2 ^ field.1 := by
    intro field hfield
    obtain ⟨digit, -, rfl⟩ := List.mem_map.1 hfield
    cases digit <;> decide
  have hslices := Bits.slices_concat hfields
  rw [List.map_map, List.map_map] at hslices
  rw [bitsValue_eq_concat, ← List.map_const']
  exact hslices

section

variable [Machine]

/-- The field that a rule gives to operands has the value that its entry reads as. -/
theorem reads_of_ofEntry {arch : Arch} {operands : List String} {entry : Entry} {f : Field}
    (h : Field.ofEntry arch operands entry = .ok f) : entry.Reads arch operands f.value := by
  cases entry with
  | bits digits =>
    obtain ⟨-, rfl⟩ := Field.ofValue_eq_ok h
    exact .bits (slices_bitsValue digits)
  | operand index name =>
    obtain ⟨token, v, hoperand, hname, hgiven⟩ := Field.given_of_ofEntry h
    cases hgiven with
    | token hdomain hplace _ => exact .token hoperand hname hdomain hplace
    | number hdomain hvalue _ => exact .number hoperand hname hdomain hvalue
    | symbol hdomain hvalue => exact .symbol hoperand hname hdomain hvalue

/-- **Cutting the number of an instruction by its layout gives what its entries read as.** -/
theorem Instruction.reads_slices {arch : Arch} {operands : List String} {layout : List Entry}
    {fields : List Field} (h : layout.mapM (Field.ofEntry arch operands) = .ok fields) :
    List.Forall₂ (Entry.Reads arch operands) layout
      (Bits.slices (pack fields) (layout.map arch.bitsOf)) := by
  have hvalues : Bits.slices (pack fields) (fields.map Field.bits) = fields.map Field.value := by
    have hfields : ∀ field ∈ fields.map fun f => (f.bits, f.value), field.2 < 2 ^ field.1 := by
      intro field hfield
      obtain ⟨f, hf, rfl⟩ := List.mem_map.1 hfield
      obtain ⟨entry, -, hentry⟩ := exists_of_mem_mapM h hf
      exact (Field.sound_of_ofEntry hentry).fits
    have hslices := Bits.slices_concat hfields
    rwa [List.map_map, List.map_map, ← pack_eq_concat] at hslices
  rw [← map_eq_of_mapM (fun _ _ => Field.bits_of_ofEntry) h, hvalues, List.forall₂_map_right_iff]
  exact (forall₂_of_mapM h).imp fun _ _ => reads_of_ofEntry

/-! ## The rule of an instruction -/

namespace Assembler

open Attempt

variable {library : Option Library} {a b : Assembler} {record : Record}

/-- Whether a rule matches a line and builds an instruction of its operands. -/
def Builds (arch : Arch) (address line : Int) (text : String) (rule : Rule) : Prop :=
  ∃ operands instruction, rule.captures text = some operands ∧
    Instruction.build arch rule operands address line = .ok instruction

theorem exists_encode_of_builds {arch : Arch} {address line : Int} {text : String} {rule : Rule}
    (h : Builds arch address line text rule) : ∃ e, encode arch rule text = some (.ok e) := by
  obtain ⟨operands, instruction, hcaptures, hbuild⟩ := h
  have hencode := encode_eq_build arch rule text address line
  rw [hcaptures, Option.map_some, hbuild] at hencode
  rcases hresult : encode arch rule text with _ | (fault | e)
  · rw [hresult] at hencode
    cases hencode
  · rw [hresult] at hencode
    cases hencode
  · exact ⟨e, rfl⟩

/-- What a rule makes of a line is of this rule and this line. -/
theorem eq_of_encode {arch : Arch} {rule : Rule} {text : String} {e : Encoding}
    (h : encode arch rule text = some (.ok e)) : e.arch = arch ∧ e.rule = rule ∧ e.text = text := by
  rw [encode] at h
  split at h
  · cases h
  · split at h
    · cases h
      exact ⟨rfl, rfl, rfl⟩
    · cases h

/-- The rule that is picked is the first one that matches the line and builds. -/
theorem first_of_pick {arch : Arch} {text : String} {last : Option Rejection} {rules : List Rule}
    {e : Encoding} (h : pick arch text last rules = .ok (.inr e)) (address line : Int) :
    ∃ before after, rules = before ++ e.rule :: after ∧ encode arch e.rule text = some (.ok e) ∧
      ∀ rule ∈ before, ¬ Builds arch address line text rule := by
  induction rules generalizing last with
  | nil => cases h
  | cons rule rest ih =>
    -- A rule that is passed over does not build, and the others follow.
    have hpassed : (∀ e, encode arch rule text ≠ some (.ok e)) →
        (∃ last, pick arch text last rest = .ok (.inr e)) →
        ∃ before after, rule :: rest = before ++ e.rule :: after ∧
          encode arch e.rule text = some (.ok e) ∧
          ∀ rule ∈ before, ¬ Builds arch address line text rule := by
      rintro hrule ⟨last, hrest⟩
      obtain ⟨before, after, rfl, hencode, hbefore⟩ := ih hrest
      refine ⟨rule :: before, after, rfl, hencode, List.forall_mem_cons.2 ⟨?_, hbefore⟩⟩
      intro hbuilds
      obtain ⟨e', he'⟩ := exists_encode_of_builds hbuilds
      exact hrule e' he'
    rcases hencode : encode arch rule text with _ | (fault | e')
    · rw [pick, hencode] at h
      exact hpassed (by rw [hencode]; rintro _ ⟨⟩) ⟨last, h⟩
    · rw [pick, hencode] at h
      cases fault with
      | rejected rejection => exact hpassed (by rw [hencode]; rintro _ ⟨⟩) ⟨some rejection, h⟩
      | _ => cases h
    · rw [pick, hencode] at h
      cases h
      obtain ⟨-, hrule, -⟩ := eq_of_encode hencode
      exact ⟨[], rest, by rw [hrule]; rfl, by rw [hrule]; exact hencode, List.forall_mem_nil _⟩

/-- An instruction that gives a record has a rule picked for it, and was emitted. -/
theorem picked_of_record {text : String}
    (h : (assembleInstruction text).runFrom a = (.ok (some record), b)) :
    ∃ set e, a.active = some set ∧ pick set.arch text none set.rules = .ok (.inr e) ∧
      (perform (.code e)).runFrom a = (.ok (), b) := by
  rw [assembleInstruction, runFrom_bind_ok (runFrom_get a)] at h
  rcases hactive : a.active with _ | set
  · rw [hactive] at h
    cases h
  · simp only [hactive, choose_eq_pick] at h
    rcases hpick : pick set.arch text none set.rules with fault | last | e
    · rw [hpick] at h
      cases h
    · rw [hpick] at h
      cases h
    · rw [hpick] at h
      obtain ⟨choice, c, hchoice, h⟩ := runFrom_bind_eq_ok.1 h
      cases hchoice
      obtain ⟨noted, c, hemit, h⟩ := runFrom_bind_eq_ok.1 h
      cases h
      refine ⟨set, e, rfl, hpick, ?_⟩
      rw [perform, runFrom_bind_ok (runFrom_get a), runFrom_bind_ok hemit]
      rfl

/-! ## Reading words back -/

/-- Whether the words of a record read back as what a rule laid out for operands. -/
structure ReadsBack (a : Assembler) (arch : Arch) (rule : Rule) (operands : List String)
    (record : Record) (b : Assembler) : Prop where
  offset : record.offset = a.ip
  nbits : record.nbits = (rule.layout.map arch.bitsOf).sum
  width : b.width = a.width
  words : ∃ (count : Nat) (words : List Nat), wordCount record.nbits a.width = .ok count ∧
    (List.range count).mapM (fun (k : Nat) => b.image.read (record.offset + k)) = .ok words ∧
    (∀ word ∈ words, word < 2 ^ a.width.toNat) ∧
    Radix.value (2 ^ a.width.toNat) words < 2 ^ record.nbits.toNat ∧
    List.Forall₂ (Entry.Reads arch operands) rule.layout
      (Bits.slices (Radix.value (2 ^ a.width.toNat) words) (rule.layout.map arch.bitsOf)) ∧
    b.ip = a.ip + count ∧
    ∀ address, address < record.offset ∨ record.offset + count ≤ address →
      b.image.read address = a.image.read address

namespace StoredUpTo

variable {values : List Int} {count : Nat}

omit [Machine] in
theorem origin_eq (h : StoredUpTo a values count b) : b.image.origin = a.image.origin := by
  rw [h.frame]

omit [Machine] in
theorem place_eq (h : StoredUpTo a values count b) (address : Int) :
    b.image.place address = a.image.place address := by
  rw [Image.place, Image.place, h.origin_eq]

omit [Machine] in
/-- The words that were stored are read from the address on. -/
theorem mapM_read (h : StoredUpTo a values values.length b) (hbehind : a.image.origin ≤ a.ip) :
    (List.range values.length).mapM (fun (k : Nat) => b.image.read (a.ip + k)) =
      .ok (values.map (Bits.low a.width.toNat)) := by
  have horigin := h.origin_eq
  have hread : ∀ k ∈ List.range values.length, b.image.read (a.ip + k) =
      pure (Words.get b.image.words (a.image.place a.ip + k)) := by
    intro k _
    rw [Image.read_of_le (by omega), h.place_eq]
    congr 2
    rw [Image.place, Image.place]
    omega
  rw [mapM_congr hread, List.mapM_pure]
  congr 1
  apply List.ext_getElem?
  intro k
  by_cases hk : k < values.length
  · have hword : Words.get b.image.words (a.image.place a.ip + k) =
        Bits.low a.width.toNat values[k] :=
      h.stored k hk values[k] (List.getElem?_eq_getElem hk)
    simpa [hk] using hword
  · simp [hk]

omit [Machine] in
/-- What is read anywhere else is as before, even in front of the image. -/
theorem read_kept (h : StoredUpTo a values count b) (hbehind : a.image.origin ≤ a.ip)
    {address : Int} (haddress : address < a.ip ∨ a.ip + count ≤ address) :
    b.image.read address = a.image.read address := by
  have horigin := h.origin_eq
  by_cases hlow : address < a.image.origin
  · rw [Image.read, Image.read, Image.index, Image.index, horigin, if_pos hlow]
    rfl
  · rw [Image.read_of_le (by omega), Image.read_of_le (by omega), h.place_eq]
    refine congrArg _ (h.kept _ ?_)
    rw [Image.place, Image.place]
    omega

end StoredUpTo

/-- **An instruction that was emitted reads back.** -/
theorem readsBack_of_perform (hs : a.Sound) {e : Encoding}
    (h : (perform (.code e)).runFrom a = (.ok (), b)) :
    a.ReadsBack e.arch e.rule e.operands (a.place (.code e)).record b := by
  obtain ⟨diagnostics, values, count, -, hvalues, hstored, ⟨-, rfl⟩ | ⟨⟨why, ⟨⟩⟩, -⟩⟩ :=
    emitted_or_cut hs (.code e) h
  have hsize : values.length = wordsFor e.nbits a.width.toNat := by
    rw [← List.length_map (Bits.low a.width.toNat), hvalues, Placed.length_blank]
    rfl
  have hwidth : 0 < a.width.toNat := by
    have := hs.width_pos
    omega
  have hbehind : a.image.origin ≤ a.ip := hs.image_origin ▸ hs.origin_le
  have hread := hstored.mapM_read hbehind
  have hlt : Instruction.pack e.fields < 2 ^ e.nbits :=
    e.lengthOf_fields ▸ Instruction.pack_lt e.fields_sound
  have hvalue : Radix.value (2 ^ a.width.toNat) (a.place (.code e)).blank =
      Instruction.pack e.fields := value_splitWords hwidth hlt
  refine ⟨rfl, rfl, ?_, values.length, (a.place (.code e)).blank, ?_, ?_, ?_, ?_, ?_,
    ?_, ?_⟩
  · rw [hstored.frame]
    rfl
  · rw [hsize]
    exact wordCount_natCast e.nbits hs.width_pos
  · rw [← hvalues]
    exact hread
  · intro word hword
    exact Placed.blank_lt hword
  · rw [hvalue]
    exact hlt
  · rw [hvalue]
    exact Instruction.reads_slices e.built
  · rw [hstored.frame]
    rfl
  · intro address haddress
    exact hstored.read_kept hbehind haddress

/-- **Decoding an emitted instruction restores its fields.**  A line that gives a record is an
instruction, and the record is of the first rule that matches it and builds.  The words of the
record read back as the rule has laid them out, and all other words are as before. -/
theorem record_reads_back (library : Option Library) (active : Option InstructionSet)
    (calls : List Call) (line : String) {a b : Assembler} {record : Record}
    (ha : a = afterCalls library calls (fresh active))
    (h : (step library line).runFrom a = (.ok (some record), b)) :
    ∃ set text before rule after operands, a.active = some set ∧
      (Statement.parse line).body = .instruction text ∧ set.rules = before ++ rule :: after ∧
      (∀ earlier ∈ before, ¬ Builds set.arch a.ip (a.line + 1) text earlier) ∧
      Builds set.arch a.ip (a.line + 1) text rule ∧ rule.captures text = some operands ∧
      a.ReadsBack set.arch rule operands record b := by
  have hs : a.Sound := ha ▸ ((wellFormed_fresh active).afterCalls calls).toSound
  obtain ⟨text, hbody, hrun⟩ := instruction_of_assembleLine h
  obtain ⟨set, e, hactive, hpick, hperform⟩ := picked_of_record hrun
  obtain ⟨before, after, hrules, hencode, hbefore⟩ := first_of_pick hpick a.ip (a.line + 1)
  obtain ⟨harch, -, htext⟩ := eq_of_encode hencode
  have hrecord : record = ((a.begun line).place (.code e)).record := by
    rcases (emits_of_pick (hs.begun line) hactive hpick).2 with hgiven | ⟨why, hfault⟩
    · rw [hrun] at hgiven
      exact Option.some.inj (Except.ok.inj hgiven)
    · rw [hrun] at hfault
      cases hfault
  have hback := readsBack_of_perform (hs.begun line) hperform
  rw [harch, ← hrecord] at hback
  have hcaptures : e.rule.captures text = some e.operands := htext ▸ e.captured
  have hbuilds : Builds set.arch a.ip (a.line + 1) text e.rule := by
    refine ⟨e.operands, Instruction.ofFields a.ip (a.line + 1) e.fields, hcaptures, ?_⟩
    rw [Instruction.build_eq, ← harch, e.found]
    rfl
  exact ⟨set, text, before, e.rule, after, e.operands, hactive, hbody, hrules, hbefore, hbuilds,
    hcaptures, hback.offset, hback.nbits, hback.width, hback.words⟩

end Assembler

end

namespace Assembler

open UsualMachine in
theorem record_reads_back_load :
    ∃ loads, InstructionSet.ofDocument "" sampleLoads = .ok loads ∧
      ∃ record b, (step none "go: ld b , $1F").runFrom
          (afterCalls none [.line ".width 3"] (fresh (some loads))) = (.ok (some record), b) ∧
        ∃ set rule operands,
          (afterCalls none [.line ".width 3"] (fresh (some loads))).active = some set ∧
          rule ∈ set.rules ∧
          (afterCalls none [.line ".width 3"] (fresh (some loads))).ReadsBack set.arch rule operands
            record b := by
  have hruns : (InstructionSet.ofDocument "" sampleLoads).toOption.any (fun loads =>
      ((step none "go: ld b , $1F").runFrom (afterCalls none [.line ".width 3"]
        (fresh (some loads)))).1.toOption.join.isSome) = true := by
    decide +kernel
  obtain ⟨loads, hloads, hsome⟩ := (Option.any_eq_true _ _).1 hruns
  refine ⟨loads, ok_of_toOption hloads, ?_⟩
  generalize hcalls : afterCalls none [.line ".width 3"] (fresh (some loads)) = a at hsome ⊢
  rcases hrun : (step none "go: ld b , $1F").runFrom a with ⟨fault | (_ | record), b⟩
  · rw [hrun] at hsome
    cases hsome
  · rw [hrun] at hsome
    cases hsome
  · obtain ⟨set, text, before, rule, after, operands, hactive, -, hrules, -, -, -, hback⟩ :=
      record_reads_back none (some loads) _ "go: ld b , $1F" hcalls.symm hrun
    refine ⟨record, b, rfl, set, rule, operands, hactive, ?_, hback⟩
    rw [hrules]
    exact List.mem_append_right _ List.mem_cons_self

end Assembler

end Retarget
