import Retarget.Proofs.FinalWords

/-!
# One pass with fixups is two passes

A second pass needs no fixups: with all symbols known from the first pass, it writes the final words
of each emission at its address (`Pass.encoded`).  A program that settles its origin and width
before its first word leaves the same image in one pass, in which words were written with zeros for
what was not yet known and the symbols flipped into them at the end (`assemble_eq_twoPass`).

The proof is place by place.  Addresses only go up from the first word on, so each place belongs to
one emission at most (`Settled.disjoint`).  What is flipped there belongs to the same emission, and
turns the word first written into the final one.
-/

namespace Retarget

section

variable [Machine]

/-! ## The second pass -/

/-- The image that a second pass makes: the final words of all emissions at their addresses as far
as there is room, zeros between them, and as long as declared. -/
def Pass.encoded (pass : Pass) : Array Nat :=
  Words.grow (Words.depositAll (pass.placed.flatMap fun p =>
    Words.row (p.address - pass.origin).toNat
      (p.final (Bindings.find? pass.symbols))) #[]) pass.codelen.toNat

/-! ## Programs with a settled layout -/

/-- Whether an event changes the origin or the width of words. -/
def Event.reshapes : Event → Bool
  | .origin _ => true
  | .width _ => true
  | .activate _ => true
  | _ => false

/-- Whether an event emits at least one word. -/
def Event.emitsWords : Event → Bool
  | .emit (.code e) => e.nbits != 0
  | .emit (.data tokens) => !tokens.isEmpty
  | .emit (.text characters) => !characters.isEmpty
  | _ => false

/-- Whether the origin and the width are settled before the first word. -/
def LayoutFirst (events : List Event) : Prop :=
  events.Pairwise fun e later => e.emitsWords = true → later.reshapes = false

instance (events : List Event) : Decidable (LayoutFirst events) :=
  inferInstanceAs (Decidable (events.Pairwise _))

/-- Whether all emissions with words share the origin and the width of the pass, one behind the
other. -/
structure Pass.Settled (pass : Pass) : Prop where
  layout : ∀ p ∈ pass.placed, p.size ≠ 0 →
    p.origin = pass.origin ∧ p.width = pass.width ∧ p.address + (p.size : Int) ≤ pass.ip
  ascending : pass.placed.Pairwise fun p q => p.size ≠ 0 → p.address + (p.size : Int) ≤ q.address

namespace Pass

theorem size_of_not_emitsWords {pass : Pass} {emission : Emission}
    (h : (Event.emit emission).emitsWords = false) : (pass.place emission).size = 0 := by
  cases emission with
  | code e =>
    have hzero : e.nbits = 0 := by simpa [Event.emitsWords] using h
    show wordsFor e.nbits pass.width.toNat = 0
    rw [hzero, wordsFor, Nat.div_eq_zero_iff]
    omega
  | data tokens =>
    have hnil : tokens = [] := by simpa [Event.emitsWords] using h
    rw [hnil]
    rfl
  | text characters =>
    have hnil : characters = [] := by simpa [Event.emitsWords] using h
    rw [hnil]
    rfl

/-- An event places what it emits, if it emits. -/
theorem mem_placed_step {pass : Pass} {e : Event} {p : Placed} (h : p ∈ (pass.step e).placed) :
    p ∈ pass.placed ∨ ∃ emission, e = .emit emission ∧ p = pass.place emission := by
  cases e with
  | emit emission =>
    rcases List.mem_append.1 h with h | h
    · exact .inl h
    · exact .inr ⟨emission, rfl, List.mem_singleton.1 h⟩
  | width n =>
    simp only [step] at h
    split at h <;> exact .inl h
  | align n =>
    simp only [step] at h
    split at h <;> exact .inl h
  | _ => exact .inl h

/-- An emission is placed behind those before it. -/
theorem Settled.emit {pass : Pass} (h : pass.Settled) (emission : Emission) :
    (pass.step (.emit emission)).Settled := by
  refine ⟨fun p hp hsize => ?_, ?_⟩
  · rcases List.mem_append.1 hp with hp | hp
    · obtain ⟨horigin, hwidth, hip⟩ := h.layout p hp hsize
      refine ⟨horigin, hwidth, Int.le_trans hip ?_⟩
      show pass.ip ≤ pass.ip + ((pass.place emission).size : Int)
      omega
    · rw [List.mem_singleton.1 hp]
      exact ⟨rfl, rfl, Int.le_refl _⟩
  · refine List.pairwise_append.2
      ⟨h.ascending, List.pairwise_singleton _ _, fun p hp q hq hsize => ?_⟩
    rw [List.mem_singleton.1 hq]
    exact (h.layout p hp hsize).2.2

/-- An event keeps the layout settled, unless it changes it after a word was placed. -/
theorem Settled.step {pass : Pass} (h : pass.Settled) (e : Event)
    (hreshape : e.reshapes = true → ∀ p ∈ pass.placed, p.size = 0) : (pass.step e).Settled := by
  have hblank : (∀ p ∈ pass.placed, p.size = 0) → ∀ next : Pass, next.placed = pass.placed →
      next.Settled := by
    intro hzero next hnext
    refine ⟨fun p hp hsize => ?_, ?_⟩
    · exact absurd (hzero p (hnext ▸ hp)) hsize
    · rw [hnext]
      exact h.ascending
  cases e with
  | emit emission => exact h.emit emission
  | origin address => exact hblank (hreshape rfl) _ rfl
  | activate set => exact hblank (hreshape rfl) _ rfl
  | width n =>
    refine hblank (hreshape rfl) _ ?_
    rw [Pass.step]
    split <;> rfl
  | align n =>
    rw [Pass.step]
    split
    · exact h
    · refine ⟨fun p hp hsize => ?_, h.ascending⟩
      obtain ⟨horigin, hwidth, hip⟩ := h.layout p hp hsize
      exact ⟨horigin, hwidth, Int.le_trans hip (Assembler.le_roundUp pass.ip (by omega))⟩
  | _ => exact ⟨h.layout, h.ascending⟩

/-- Events that settle the layout first keep it settled. -/
theorem Settled.run {pass : Pass} (h : pass.Settled) {events : List Event}
    (hfirst : LayoutFirst events)
    (hreshape : ∀ e ∈ events, e.reshapes = true → ∀ p ∈ pass.placed, p.size = 0) :
    (pass.run events).Settled := by
  induction events generalizing pass with
  | nil => exact h
  | cons e rest ih =>
    -- If a later event changes the layout, neither those before nor this one has placed a word.
    obtain ⟨hlater, hrest⟩ := List.pairwise_cons.1 hfirst
    refine ih (h.step e (hreshape e List.mem_cons_self)) hrest fun later hmem hlate p hp => ?_
    have hbefore := hreshape later (List.mem_cons_of_mem e hmem) hlate
    rcases mem_placed_step hp with hp | ⟨emission, rfl, rfl⟩
    · exact hbefore p hp
    · refine size_of_not_emitsWords (Bool.eq_false_iff.2 fun hwords => ?_)
      rw [hlater later hmem hwords] at hlate
      cases hlate

end Pass

/-! ## Places -/

/-- Whether an emission has a word at a place. -/
def Placed.Covers (p : Placed) (i : Nat) : Prop :=
  ∃ k < p.size, p.base + k = i

theorem Placed.covers_of_mem_row {p : Placed} {words : List Nat} (hlength : words.length = p.size)
    {f : Nat × Nat} (h : f ∈ Words.row p.base words) : f.1 < Machine.words ∧ p.Covers f.1 := by
  obtain ⟨hroom, k, hk, hplace⟩ := Words.mem_row h
  exact ⟨hroom, k, hlength ▸ hk, hplace.symm⟩

namespace Pass

variable {pass : Pass}

/-- Each place belongs to one emission at most. -/
theorem Settled.disjoint (hs : pass.Settled)
    (hplaced : ∀ p ∈ pass.placed, p.origin ≤ p.address ∧ 1 ≤ p.width) :
    pass.placed.Pairwise fun p q => ∀ i, p.Covers i → ¬ q.Covers i := by
  refine hs.ascending.imp_of_mem ?_
  rintro p q hp hq hlt i ⟨k, hk, rfl⟩ ⟨j, hj, hplace⟩
  have hbefore := hlt (by omega)
  have hpo := (hs.layout p hp (by omega)).1
  have hqo := (hs.layout q hq (by omega)).1
  have hpa := (hplaced p hp).1
  have hqa := (hplaced q hq).1
  simp only [Placed.base] at hplace
  omega

/-- In a settled layout the symbols flip the words of an emission where it was placed. -/
theorem Settled.flips_eq (hs : pass.Settled) {p : Placed} (hp : p ∈ pass.placed)
    (hwidth : 1 ≤ p.width) (symbols : String → Option SymbolValue) :
    p.flips symbols pass.origin pass.width = p.flips symbols p.origin p.width := by
  by_cases hsize : p.size = 0
  · rw [Placed.flips_of_size_eq_zero hwidth hsize, Placed.flips_of_size_eq_zero hwidth hsize]
  · obtain ⟨horigin, hwidth, -⟩ := hs.layout p hp hsize
    rw [horigin, hwidth]

theorem Settled.covers_of_mem_flips (hs : pass.Settled) {p : Placed} (hp : p ∈ pass.placed)
    (hplaced : p.origin ≤ p.address ∧ 1 ≤ p.width) {symbols : String → Option SymbolValue}
    {f : Nat × Nat} (h : f ∈ p.flips symbols pass.origin pass.width) : p.Covers f.1 := by
  rw [hs.flips_eq hp hplaced.2] at h
  obtain ⟨k, hk, hplace⟩ := Placed.mem_flips hplaced.2 hplaced.1 h
  exact ⟨k, hk, hplace.symm⟩

/-- At a place of an emission, the row of an emission is read off alone. -/
theorem lastWrite_flatMap_row {before after : List Placed} {p : Placed} {words : Placed → List Nat}
    (hlength : ∀ q, (words q).length = q.size) {k : Nat} (hk : k < p.size)
    (hroom : p.base + k < Machine.words) (hafter : ∀ q ∈ after, ¬ q.Covers (p.base + k)) :
    Words.lastWrite ((before ++ p :: after).flatMap fun q => Words.row q.base (words q))
      (p.base + k) =
      (words p)[k]? := by
  have hnone : Words.lastWrite (after.flatMap fun q => Words.row q.base (words q)) (p.base + k) =
      none := by
    refine Words.lastWrite_eq_none fun f hf hplace => ?_
    obtain ⟨q, hq, hf⟩ := List.mem_flatMap.1 hf
    exact hafter q hq (hplace ▸ (Placed.covers_of_mem_row (hlength q) hf).2)
  rw [List.flatMap_append, List.flatMap_cons, Words.lastWrite_append, Words.lastWrite_append, hnone,
    Words.lastWrite_row hroom, Option.none_or, List.getElem?_eq_getElem (hlength p ▸ hk),
    Option.some_or]

theorem writes_eq (pass : Pass) : pass.writes =
    pass.placed.flatMap fun q => Words.row q.base q.blank := rfl

/-- Rows write to the places of their emissions only. -/
theorem lastWrite_rows_eq_none {words : Placed → List Nat}
    (hlength : ∀ q, (words q).length = q.size) {i : Nat}
    (h : ¬ (i < Machine.words ∧ ∃ p ∈ pass.placed, p.Covers i)) :
    Words.lastWrite (pass.placed.flatMap fun q => Words.row q.base (words q)) i = none := by
  refine Words.lastWrite_eq_none fun f hf hplace => h ?_
  obtain ⟨q, hq, hf⟩ := List.mem_flatMap.1 hf
  obtain ⟨hlt, hcov⟩ := Placed.covers_of_mem_row (hlength q) hf
  exact hplace ▸ ⟨hlt, q, hq, hcov⟩

/-- Among the flips of all emissions, those at a place of one emission are its own. -/
theorem flipsAt_flatMap_flips {before after : List Placed} {p : Placed}
    {flips : Placed → List (Nat × Nat)}
    {i : Nat} (hothers : ∀ q ∈ before ++ after, ∀ f ∈ flips q, f.1 ≠ i) :
    Words.flipsAt ((before ++ p :: after).flatMap flips) i = Words.flipsAt (flips p) i := by
  have hzero : ∀ qs : List Placed, (∀ q ∈ qs, q ∈ before ++ after) →
      Words.flipsAt (qs.flatMap flips) i = 0 := by
    intro qs hqs
    refine Words.flipsAt_eq_zero fun f hf => ?_
    obtain ⟨q, hq, hf⟩ := List.mem_flatMap.1 hf
    exact hothers q (hqs q hq) f hf
  rw [List.flatMap_append, List.flatMap_cons, Words.flipsAt_append, Words.flipsAt_append,
    hzero before fun q => List.mem_append_left after,
    hzero after fun q => List.mem_append_right before, Nat.zero_xor, Nat.xor_zero]

variable (hs : pass.Settled) (hplaced : ∀ p ∈ pass.placed, p.origin ≤ p.address ∧ 1 ≤ p.width)

include hs in
/-- In a settled layout the second pass writes each emission where the first one placed it. -/
theorem Settled.encoded_eq :
    pass.encoded = Words.grow (Words.depositAll (pass.placed.flatMap fun p =>
      Words.row p.base (p.final (Bindings.find? pass.symbols))) #[]) pass.codelen.toNat := by
  have hrow : ∀ p ∈ pass.placed,
      Words.row (p.address - pass.origin).toNat (p.final (Bindings.find? pass.symbols)) =
        Words.row p.base (p.final (Bindings.find? pass.symbols)) := by
    intro p hp
    -- An emission without words may have had another origin, but then its row is empty.
    by_cases hsize : p.size = 0
    · rw [List.length_eq_zero_iff.1 ((Placed.length_final _ p).trans hsize)]
      rfl
    · rw [Placed.base, (hs.layout p hp hsize).1]
  rw [encoded, List.flatMap_def, List.map_congr_left hrow, ← List.flatMap_def]

include hs hplaced in
/-- A place of an emission belongs to none of the others. -/
theorem Settled.not_covers {before after : List Placed} {p : Placed}
    (hsplit : pass.placed = before ++ p :: after) {i : Nat} (hcovers : p.Covers i) :
    ∀ q ∈ before ++ after, q ∈ pass.placed ∧ ¬ q.Covers i := by
  have hdisjoint := hs.disjoint hplaced
  rw [hsplit, List.pairwise_append, List.pairwise_cons] at hdisjoint
  obtain ⟨-, ⟨hafter, -⟩, hbefore⟩ := hdisjoint
  intro q hq
  rw [hsplit, List.mem_append, List.mem_cons]
  rcases List.mem_append.1 hq with hq | hq
  · exact ⟨.inl hq, fun hcov => hbefore q hq p List.mem_cons_self i hcov hcovers⟩
  · exact ⟨.inr (.inr hq), hafter q hq i hcovers⟩

include hs hplaced in
/-- At a place of an emission, its own row was written last. -/
theorem Settled.lastWrite_row {p : Placed} (hp : p ∈ pass.placed) {k : Nat} (hk : k < p.size)
    (hroom : p.base + k < Machine.words) {words : Placed → List Nat}
    (hlength : ∀ q, (words q).length = q.size) :
    Words.lastWrite (pass.placed.flatMap fun q => Words.row q.base (words q)) (p.base + k) =
      (words p)[k]? := by
  obtain ⟨before, after, hsplit⟩ := List.append_of_mem hp
  have hothers := hs.not_covers hplaced hsplit ⟨k, hk, rfl⟩
  rw [hsplit]
  exact lastWrite_flatMap_row hlength hk hroom fun q hq =>
    (hothers q (List.mem_append_right before hq)).2

include hs hplaced in
/-- At a place of an emission, only its own symbols are flipped in. -/
theorem Settled.flipsAt_flips {p : Placed} (hp : p ∈ pass.placed) {i : Nat} (hcovers : p.Covers i) :
    Words.flipsAt pass.flips i =
      Words.flipsAt (p.flips (Bindings.find? pass.symbols) p.origin p.width) i := by
  obtain ⟨before, after, hsplit⟩ := List.append_of_mem hp
  have hothers := hs.not_covers hplaced hsplit hcovers
  rw [← hs.flips_eq hp (hplaced p hp).2, flips, hsplit]
  refine flipsAt_flatMap_flips fun q hq f hf hplace => ?_
  obtain ⟨hmem, hfree⟩ := hothers q hq
  exact hfree (hplace ▸ hs.covers_of_mem_flips hmem (hplaced q hmem) hf)

theorem flips_lt {f : Nat × Nat} (h : f ∈ pass.flips) : f.2 < 2 ^ pass.width.toNat := by
  obtain ⟨p, -, hf⟩ := List.mem_flatMap.1 h
  obtain ⟨fix, -, hf⟩ := List.mem_flatMap.1 hf
  exact Fixup.flips_lt hf

/-- A place that was written holds the word written there last and what is flipped into it. -/
theorem get_flipAll_writes {i word : Nat} (hlast : Words.lastWrite pass.writes i = some word)
    (hsmall : word < 2 ^ pass.width.toNat) :
    Words.get (Words.flipAll pass.width.toNat pass.flips (Words.depositAll pass.writes #[])) i =
      word ^^^ Words.flipsAt pass.flips i := by
  have hfirst : Words.get (Words.depositAll pass.writes #[]) i = word := by
    rw [Words.get_depositAll, hlast, Option.getD_some]
  rw [Words.get_flipAll (fun f => flips_lt) (hfirst ▸ hsmall), hfirst]

variable (hroom : ∀ f ∈ pass.flips, f.1 < Machine.words)

include hs hplaced hroom in
/-- The symbols are flipped into places that were written. -/
theorem Settled.extent_flips_le : Words.extent pass.flips ≤ Words.extent pass.writes := by
  refine Words.extent_le_iff.2 fun f hf => ?_
  have hlt := hroom f hf
  obtain ⟨p, hp, hf⟩ := List.mem_flatMap.1 hf
  obtain ⟨k, hk, hplace⟩ := hs.covers_of_mem_flips hp (hplaced p hp) hf
  rw [← hplace] at hlt ⊢
  have hlast := hs.lastWrite_row hplaced hp hk hlt Placed.length_blank
  rw [List.getElem?_eq_getElem (p.length_blank ▸ hk)] at hlast
  exact Words.lt_extent (Words.mem_of_lastWrite hlast)

include hs hplaced in
/-- At a place of an emission, flipping its symbols into the word first written makes the final
word. -/
theorem Settled.get_of_covers {p : Placed} (hp : p ∈ pass.placed) {k : Nat} (hk : k < p.size)
    (hlt : p.base + k < Machine.words) :
    Words.get (Words.flipAll pass.width.toNat pass.flips (Words.depositAll pass.writes #[]))
      (p.base + k) =
      ((p.final (Bindings.find? pass.symbols))[k]?).getD 0 := by
  obtain ⟨horigin, hwidth⟩ := hplaced p hp
  have hbound : k < p.blank.length := p.length_blank ▸ hk
  have hlast : Words.lastWrite pass.writes (p.base + k) = some p.blank[k] := by
    rw [writes_eq, hs.lastWrite_row hplaced hp hk hlt Placed.length_blank,
      List.getElem?_eq_getElem hbound]
  have hsmall : p.blank[k] < 2 ^ pass.width.toNat := by
    rw [← (hs.layout p hp (by omega)).2.1]
    exact Placed.blank_lt (List.getElem_mem hbound)
  rw [get_flipAll_writes hlast hsmall, hs.flipsAt_flips hplaced hp ⟨k, hk, rfl⟩,
    ← Placed.blank_xor_flips hwidth horigin hk, List.getElem?_eq_getElem hbound, Option.map_some,
    Option.getD_some]

include hs hplaced hroom in
/-- In a settled layout, flipping the symbols into the words first written makes the final words. -/
theorem Settled.flipAll_depositAll :
    Words.flipAll pass.width.toNat pass.flips (Words.depositAll pass.writes #[]) =
      Words.depositAll (pass.placed.flatMap fun p => Words.row p.base
        (p.final (Bindings.find? pass.symbols)))
        #[] := by
  have hfinal := Placed.length_final (Bindings.find? pass.symbols)
  refine Words.ext ?_ fun i => ?_
  · have hextent : Words.extent (pass.placed.flatMap fun p =>
        Words.row p.base (p.final (Bindings.find? pass.symbols))) = Words.extent pass.writes := by
      refine Words.extent_flatMap_congr fun p _ => Words.extent_row_congr ?_
      rw [hfinal, Placed.length_blank]
    rw [Words.size_flipAll, Words.size_depositAll, Words.size_depositAll, hextent, Nat.max_assoc,
      Nat.max_eq_left (hs.extent_flips_le hplaced hroom)]
  · by_cases hcovered : i < Machine.words ∧ ∃ p ∈ pass.placed, p.Covers i
    · obtain ⟨hlt, p, hp, k, hk, rfl⟩ := hcovered
      rw [hs.get_of_covers hplaced hp hk hlt, Words.get_depositAll,
        hs.lastWrite_row hplaced hp hk hlt hfinal, Words.get_empty]
    · -- Nothing reaches a place outside of all emissions.
      have hzero : Words.flipsAt pass.flips i = 0 := by
        refine Words.flipsAt_eq_zero fun f hf hplace => hcovered ?_
        obtain ⟨q, hq, hflip⟩ := List.mem_flatMap.1 hf
        exact hplace ▸ ⟨hroom f hf, q, hq, hs.covers_of_mem_flips hq (hplaced q hq) hflip⟩
      have hfirst : Words.get (Words.depositAll pass.writes #[]) i = 0 := by
        rw [Words.get_depositAll, writes_eq, lastWrite_rows_eq_none Placed.length_blank hcovered,
          Option.getD_none, Words.get_empty]
      rw [Words.get_flipAll (fun f => flips_lt) (hfirst ▸ Nat.two_pow_pos _), hfirst, hzero,
        Words.get_depositAll, lastWrite_rows_eq_none hfinal hcovered, Option.getD_none,
        Words.get_empty, Nat.xor_zero]

end Pass

/-! ## Programs -/

namespace Assembler

/-- A first pass over events with the layout first has a settled layout. -/
theorem settled_run_start {active : Option InstructionSet} {events : List Event}
    (h : LayoutFirst events) : ((Pass.start active).run events).Settled := by
  have hstart : (Pass.start active).placed = [] := by
    cases active <;> rfl
  refine Pass.Settled.run ⟨?_, ?_⟩ h fun _ _ _ => ?_ <;> rw [hstart]
  · exact List.forall_mem_nil _
  · exact List.Pairwise.nil
  · exact List.forall_mem_nil _

theorem settled_firstPass {library : Option Library} {text : String}
    {active : Option InstructionSet} (h : LayoutFirst (events library text active)) :
    (firstPass library text active).Settled :=
  settled_run_start h

/-- **One pass with fixups is two passes.**  A program that settles its origin and width before
its first word leaves the image that a second pass makes, with the symbols of the end of the
first one. -/
theorem assemble_eq_twoPass {library : Option Library} {text : String}
    {active : Option InstructionSet} {b : Assembler}
    (hlayout : LayoutFirst (events library text active))
    (h : (assemble library text).runFrom (fresh active) = (.ok (), b)) :
    b.image.words = (firstPass library text active).encoded := by
  have hassembled := assembled_of_assemble h
  have hs := settled_firstPass hlayout
  rw [hassembled.image, hs.encoded_eq, hs.flipAll_depositAll hassembled.placed hassembled.room]

end Assembler

end

namespace Assembler

/-- A description of relative branches, whose targets cross the words. -/
def branching : Document :=
  .object [("width", .int 8),
    ("vars", .object [
      ("cond", .object [("bits", .int 2), ("toks", .list [.text "z", .text "nz", .text "c"])]),
      ("target", .object [("bits", .int 13), ("iprel", .bool true), ("ipofs", .int 2)])]),
    ("rules", .list [
      .object [("fmt", .text "br ~cond, ~target"),
        ("bits", .list [.text "10110", .int 0, .int 1])]])]

open UsualMachine in
theorem assemble_eq_twoPass_branching :
    let text := "\n".intercalate [".org 4", ".len 14", "br NZ, done", ".align 4",
      "back: .data done 258", "done: br c, back", ".string \"hi\""]
    let active := (InstructionSet.ofDocument "branching" branching).toOption
    LayoutFirst (events none text active) ∧
      ∃ b, (assemble none text).runFrom (fresh active) = (.ok (), b) ∧
        b.image.words = #[11, 32, 4, 0, 10, 2, 11, 95, 252, 104, 105, 0, 0, 0] ∧
        (firstPass none text active).encoded = b.image.words := by
  intro text active
  have hlayout : LayoutFirst (events none text active) := by decide +kernel
  have hfacts : ((assemble none text).runFrom (fresh active)).1.isOk = true ∧
      ((assemble none text).runFrom (fresh active)).2.image.words =
        #[11, 32, 4, 0, 10, 2, 11, 95, 252, 104, 105, 0, 0, 0] := by decide +kernel
  refine ⟨hlayout, ?_⟩
  rcases hrun : (assemble none text).runFrom (fresh active) with ⟨_ | ⟨⟩, b⟩
  · rw [hrun] at hfacts
    cases hfacts.1
  · rw [hrun] at hfacts
    exact ⟨b, rfl, hfacts.2, (assemble_eq_twoPass hlayout hrun).symm⟩

end Assembler

end Retarget
