import Retarget.Proofs.TwoPass

/-!
# Programs that move the origin

A word is written to the place which its address has from the origin of that moment, and stays
there: moving the origin re-bases the image under the words that it already holds.  Records and
fixups keep their addresses, and are read and resolved from the origin of the end.

So the image is given place by place (`Pass.standing`), not address by address.  The words of a line
are found at its address in the end if the origin and the width are again those of the line, nothing
written later came to the same place, and the symbols of no other line were flipped into it
(`image_rebased`).  A line in front of the origin is told of.
-/

namespace Retarget

section

variable [Machine]

namespace Pass

/-- The word that stands at a place in the end: the last one written there, and all the bits flipped
there. -/
def standing (pass : Pass) (i : Nat) : Nat :=
  let word := (Words.lastWrite pass.writes i).getD 0
  if pass.flips.any (·.1 == i) then word % 2 ^ pass.width.toNat ^^^ Words.flipsAt pass.flips i
  else word

/-- The bits that the symbols of some emissions flip at a place. -/
def flipsOf (pass : Pass) (emissions : List Placed) (i : Nat) : Nat :=
  Words.flipsAt (emissions.flatMap
    (Placed.flips (Bindings.find? pass.symbols) pass.origin pass.width)) i

variable {pass : Pass} {before after : List Placed} {p : Placed} {k : Nat}

/-- What is flipped at a place is what one emission flips there and what the others do. -/
theorem flipsAt_flips (hsplit : pass.placed = before ++ p :: after) (i : Nat) :
    Words.flipsAt pass.flips i =
      Words.flipsAt (p.flips (Bindings.find? pass.symbols) pass.origin pass.width) i ^^^
        pass.flipsOf (before ++ after) i := by
  rw [flips, hsplit, flipsOf]
  simp only [List.flatMap_append, List.flatMap_cons, Words.flipsAt_append]
  rw [← Nat.xor_assoc, Nat.xor_comm (Words.flipsAt (before.flatMap _) i), Nat.xor_assoc]

section Assembled

variable {b : Assembler} (h : pass.Assembled b)

include h in
/-- The image is what stands at its places. -/
theorem Assembled.get_words (i : Nat) : Words.get b.image.words i = pass.standing i := by
  rw [h.image, Words.get_grow, Words.get_flipAll_eq fun f => flips_lt, Words.get_depositAll,
    Words.get_empty]
  rfl

include h in
/-- A place that was written lies in the image. -/
theorem Assembled.lt_size {i word : Nat} (hword : Words.lastWrite pass.writes i = some word) :
    i < b.image.words.size := by
  have hlt := Words.lt_extent (Words.mem_of_lastWrite hword)
  rw [h.image, Words.size_grow, Words.size_flipAll, Words.size_depositAll]
  omega

/-- What was written last by an emission stands where its own origin put it. -/
theorem lastWrite_writes (hsplit : pass.placed = before ++ p :: after) (hk : k < p.size)
    (hroom : p.base + k < Machine.words) (hafter : ∀ q ∈ after, ¬ q.Covers (p.base + k)) :
    Words.lastWrite pass.writes (p.base + k) = p.blank[k]? := by
  rw [writes_eq, hsplit]
  exact lastWrite_flatMap_row Placed.length_blank hk hroom hafter

include h in
/-- With the origin and the width of the end, the final word of an emission is there, but for what
the symbols of others flip in it. -/
theorem Assembled.getElem?_words (hsplit : pass.placed = before ++ p :: after) (hk : k < p.size)
    (hroom : p.base + k < Machine.words) (hafter : ∀ q ∈ after, ¬ q.Covers (p.base + k))
    (horigin : p.origin = pass.origin) (hwidth : p.width = pass.width) :
    b.image.words[p.base + k]? =
      ((p.final (Bindings.find? pass.symbols))[k]?).map
        (· ^^^ pass.flipsOf (before ++ after) (p.base + k)) := by
  have hp : p ∈ pass.placed := hsplit ▸ List.mem_append_right before List.mem_cons_self
  obtain ⟨hbase, hpos⟩ := h.placed p hp
  have hbound : k < p.blank.length := p.length_blank ▸ hk
  have hlast := lastWrite_writes hsplit hk hroom hafter
  rw [List.getElem?_eq_getElem hbound] at hlast
  -- The word is not cut when it is flipped, as it was written with the width of the end.
  have hsmall : p.blank[k] < 2 ^ pass.width.toNat := by
    rw [← hwidth]
    exact Placed.blank_lt (List.getElem_mem hbound)
  have hget : Words.get b.image.words (p.base + k) =
      p.blank[k] ^^^ Words.flipsAt pass.flips (p.base + k) := by
    rw [h.image, Words.get_grow, get_flipAll_writes hlast hsmall]
  rw [← Placed.blank_xor_flips hpos hbase hk, List.getElem?_eq_getElem hbound, Option.map_some,
    Option.map_some, Nat.xor_assoc, horigin, hwidth, ← flipsAt_flips hsplit, ← hget,
    Words.get_eq_getElem (h.lt_size hlast)]
  exact Array.getElem?_eq_getElem _

include h in
/-- Under the origin and the width of the end, the final word is where the record says exactly if
the symbols of others flip nothing in it. -/
theorem Assembled.words_iff (hsplit : pass.placed = before ++ p :: after) (hk : k < p.size)
    (hroom : p.base + k < Machine.words) (hafter : ∀ q ∈ after, ¬ q.Covers (p.base + k))
    (hsame : p.origin = b.origin) (hwidth : p.width = b.image.width) :
    b.image.words[(p.address + k - b.origin).toNat]? =
        (p.final (Bindings.find? pass.symbols))[k]? ↔
      pass.flipsOf (before ++ after) (p.base + k) = 0 := by
  have hp : p ∈ pass.placed := hsplit ▸ List.mem_append_right before List.mem_cons_self
  -- Under the origin of the end, the address is the place.
  have hplace : (p.address + k - b.origin).toNat = p.base + k := by
    have hbase := (h.placed p hp).1
    rw [Placed.base, ← hsame]
    omega
  have hbound : k < (p.final (Bindings.find? pass.symbols)).length := by
    rw [Placed.length_final]
    exact hk
  rw [h.image] at hwidth
  rw [hplace, h.getElem?_words hsplit hk hroom hafter (hsame.trans h.origin) hwidth,
    List.getElem?_eq_getElem hbound, Option.map_some, Option.some.injEq]
  constructor
  · intro heq
    exact Nat.xor_right_injective (heq.trans (Nat.xor_zero _).symm)
  · intro hzero
    rw [hzero, Nat.xor_zero]

end Assembled

/-- What becomes of the record and the words of an emission among others in a finished program. -/
structure Outcome (pass : Pass) (b : Assembler) (before : List Placed) (p : Placed)
    (after : List Placed) (r : Record) : Prop where
  line : r.line = p.line
  offset : r.offset = p.address
  nbits : r.nbits = p.nbits
  /-- A record in front of the origin is told of and shows nothing. -/
  told : p.address < b.origin →
    ⟨.belowOrigin p.address b.origin, p.line, false⟩ ∈ b.diagnostics.toList ∧ r.text = ""
  /-- Any other shows the words that stand at its address from the origin of the end. -/
  shown : b.origin ≤ p.address →
    r.text = " ".intercalate ((List.range (r.count b.image.width)).map fun j =>
      Literal.hexText (pass.standing ((p.address - b.origin).toNat + j))
        (Literal.hexDigits b.image.width))
  /-- The words themselves stay at the address from the origin under which they were written. -/
  stays : ∀ k < p.size, p.base + k < Machine.words → (∀ q ∈ after, ¬ q.Covers (p.base + k)) →
    Words.lastWrite pass.writes (p.base + k) = p.blank[k]?
  /-- If that is the origin of the end, the final words are where the record says, unless the
  symbols of others are flipped into them. -/
  kept : p.origin = b.origin → p.width = b.image.width →
    ∀ k < p.size, p.base + k < Machine.words →
    (∀ q ∈ after, ¬ q.Covers (p.base + k)) →
      (b.image.words[(p.address + k - b.origin).toNat]? =
        (p.final (Bindings.find? pass.symbols))[k]? ↔
        pass.flipsOf (before ++ after) (p.base + k) = 0)
  /-- In a program that settles its layout before its first word, they always are. -/
  settled : pass.Settled → ∀ k < p.size, p.base + k < Machine.words →
    b.image.words[(p.address + k - b.origin).toNat]? = (p.final (Bindings.find? pass.symbols))[k]?

/-- In a settled layout the symbols of others flip nothing at a place of an emission. -/
theorem Settled.flipsOf_others (hs : pass.Settled)
    (hplaced : ∀ p ∈ pass.placed, p.origin ≤ p.address ∧ 1 ≤ p.width)
    (hsplit : pass.placed = before ++ p :: after) {i : Nat} (hcovers : p.Covers i) :
    pass.flipsOf (before ++ after) i = 0 := by
  refine Words.flipsAt_eq_zero fun f hf hplace => ?_
  obtain ⟨q, hq, hf⟩ := List.mem_flatMap.1 hf
  obtain ⟨hmem, hfree⟩ := hs.not_covers hplaced hsplit hcovers q hq
  exact hfree (hplace ▸ hs.covers_of_mem_flips hmem (hplaced q hmem) hf)

theorem Assembled.outcome {b : Assembler} (h : pass.Assembled b)
    (hsplit : pass.placed = before ++ p :: after) :
    pass.Outcome b before p after (p.record.shownIn b.image) := by
  have hp : p ∈ pass.placed := hsplit ▸ List.mem_append_right before List.mem_cons_self
  have horigin : b.image.origin = b.origin := by rw [h.image, h.origin]
  have hfields : ∀ image : Image, (p.record.shownIn image).line = p.line ∧
      (p.record.shownIn image).offset = p.address ∧ (p.record.shownIn image).nbits = p.nbits := by
    intro image
    rw [Record.shownIn]
    split <;> exact ⟨rfl, rfl, rfl⟩
  obtain ⟨hline, hoffset, hnbits⟩ := hfields b.image
  refine ⟨hline, hoffset, hnbits, fun hbelow => ⟨?_, ?_⟩, fun hbelow => ?_,
    fun k hk hroom hafter => ?_, ?_, ?_⟩
  · rw [h.origin] at hbelow ⊢
    exact h.told p hp hbelow
  · rw [Record.shownIn, horigin, if_pos (show p.record.offset < b.origin from hbelow)]
    rfl
  · have hcount : (p.record.shownIn b.image).count b.image.width =
        p.record.count b.image.width := by
      rw [Record.count, Record.count, hnbits]
      rfl
    rw [hcount, Record.shownIn, horigin,
      if_neg (show ¬ p.record.offset < b.origin from Int.not_lt.2 hbelow), Record.wordsIn,
      Hex.texts, Image.wordsFrom, List.map_map]
    simp only [Function.comp_def, h.get_words, Image.place, horigin]
    rfl
  · exact lastWrite_writes hsplit hk hroom hafter
  · exact fun hsame hwidth k hk hroom hafter => h.words_iff hsplit hk hroom hafter hsame hwidth
  · intro hs k hk hroom
    obtain ⟨hsame, hwidth, -⟩ := hs.layout p hp (by omega)
    have hothers := hs.not_covers h.placed hsplit ⟨k, hk, rfl⟩
    refine (h.words_iff hsplit hk hroom (fun q hq => ?_) (hsame.trans h.origin.symm) ?_).2 ?_
    · exact (hothers q (List.mem_append_right before hq)).2
    · rw [h.image]
      exact hwidth
    · exact hs.flipsOf_others h.placed hsplit ⟨k, hk, rfl⟩

end Pass

namespace Assembler

variable {library : Option Library} {text : String} {active : Option InstructionSet} {b : Assembler}

/-- **A moved origin re-bases the image under the words that it holds.**  Each place holds the last
word written there and the bits flipped there, and each record is one of an emission with that
outcome. -/
theorem image_rebased (h : (assemble library text).runFrom (fresh active) = (.ok (), b)) :
    (∀ i, Words.get b.image.words i = (firstPass library text active).standing i) ∧
      ∀ n r, b.records.toList[n]? = some r →
        ∃ before p after, (firstPass library text active).placed = before ++ p :: after ∧
          before.length = n ∧
          (firstPass library text active).Outcome b before p after r := by
  have hassembled := assembled_of_assemble h
  refine ⟨hassembled.get_words, fun n r hr => ?_⟩
  rw [hassembled.records, List.getElem?_map, Option.map_eq_some_iff] at hr
  obtain ⟨p, hp, rfl⟩ := hr
  obtain ⟨hn, rfl⟩ := List.getElem?_eq_some_iff.1 hp
  have hsplit := (List.take_append_drop n (firstPass library text active).placed).symm
  rw [List.drop_eq_getElem_cons hn] at hsplit
  refine ⟨_, _, _, hsplit, ?_, hassembled.outcome hsplit⟩
  rw [List.length_take]
  omega

end Assembler

end

namespace Assembler

open UsualMachine in
/-- A word that is lost without a warning: the origin comes down under it, and a later word takes
its place. -/
theorem image_rebased_lowered :
    let text := ".org 16\n.data 1\n.org 0\n.data 2"
    ∃ b, (assemble none text).runFrom (fresh none) = (.ok (), b) ∧ b.diagnostics.size = 0 ∧
      b.image.words = #[2] ∧ b.records.toList.map (·.text) = ["00", "02"] ∧
      (firstPass none text none).placed.map (·.final (Bindings.find? [])) = [[1], [2]] ∧
      (∀ i, Words.get b.image.words i = (firstPass none text none).standing i) ∧
      ∀ n r, b.records.toList[n]? = some r →
        ∃ before p after, (firstPass none text none).placed = before ++ p :: after ∧
          before.length = n ∧
          (firstPass none text none).Outcome b before p after r := by
  intro text
  have hok : ((assemble none text).runFrom (fresh none)).1.isOk = true := by decide +kernel
  have hfacts : ((assemble none text).runFrom (fresh none)).2.diagnostics.size = 0 ∧
      ((assemble none text).runFrom (fresh none)).2.image.words = #[2] ∧
      ((assemble none text).runFrom (fresh none)).2.records.toList.map (·.text) = ["00", "02"] := by
    decide +kernel
  have hfinal : (firstPass none text none).placed.map (·.final (Bindings.find? [])) =
      [[1], [2]] := by
    decide +kernel
  rcases hrun : (assemble none text).runFrom (fresh none) with ⟨_ | ⟨⟩, b⟩
  · rw [hrun] at hok
    cases hok
  · rw [hrun] at hfacts
    obtain ⟨hquiet, hwords, htexts⟩ := hfacts
    exact ⟨b, rfl, hquiet, hwords, htexts, hfinal, image_rebased hrun⟩

end Assembler

end Retarget
