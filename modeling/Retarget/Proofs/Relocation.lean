import Retarget.Proofs.Numerals
import Retarget.Proofs.Shifted
import Retarget.Proofs.TwoPass

/-!
# Position independent code

A field that takes the distance of a symbol from its own address does not change when the symbol and
the field are shifted together.  A program in which every symbol is used in this way, and in which
only labels give these symbols their values, therefore has the same words wherever it starts
(`finish_eq_relocate`): started at another origin, it ends with all its addresses shifted and all
else equal, its diagnostics among it.

The program must not move the address to a given place on its way, with `.org` or `.align`.  Without
them nothing is ever left in front of the image (`Behind`), so that finishing tells of no address.
-/

namespace Retarget

section

variable [Machine]

/-! ## Shifted symbols -/

namespace Bindings

variable {d : Int}

/-- Symbols with all their addresses shifted. -/
def shift (d : Int) (symbols : Symbols) : Symbols :=
  symbols.map fun (name, value) => (name, value.shift d)

omit [Machine] in
theorem find?_shift (symbols : Symbols) (name : String) :
    find? (symbols.shift d) name = (find? symbols name).map (SymbolValue.shift d) := by
  induction symbols with
  | nil => rfl
  | cons entry rest ih =>
    obtain ⟨key, value⟩ := entry
    show (if key = name then some (value.shift d) else find? (shift d rest) name) = _
    rw [find?]
    split
    · rfl
    · exact ih

omit [Machine] in
theorem bind_shift (symbols : Symbols) (name : String) (value : SymbolValue) :
    bind (symbols.shift d) name (value.shift d) = (bind symbols name value).shift d := by
  induction symbols with
  | nil => rfl
  | cons entry rest ih =>
    obtain ⟨key, old⟩ := entry
    show (if key = name then (key, value.shift d) :: shift d rest
      else (key, old.shift d) :: bind (shift d rest) name (value.shift d)) = _
    rw [bind]
    split
    · rfl
    · rw [ih]
      rfl

/-- Shifted events bind shifted symbols. -/
theorem after_shift (symbols : Symbols) (events : List Event) :
    (symbols.shift d).after (events.map (Event.shift d)) = (symbols.after events).shift d := by
  induction events generalizing symbols with
  | nil => rfl
  | cons e rest ih =>
    cases e with
    | bind name value =>
      show (bind (symbols.shift d) name (value.shift d)).after _ = _
      rw [bind_shift, ih]
      rfl
    | _ => exact ih symbols

end Bindings

/-- Whether the value of a symbol is the text of a definition. -/
def SymbolValue.isText : SymbolValue → Bool
  | number _ => false
  | text _ => true

omit [Machine] in
/-- A relative field is judged the same wherever it stands, if its symbol is no definition. -/
theorem Fixup.judge_shift {fix : Fixup} {symbols : Symbols} {origin d : Int}
    (hofs : origin ≤ fix.ofs) (hrelative : fix.iprel = true)
    (hlabel : ∀ value ∈ Bindings.find? symbols fix.sym, value.isText = false) :
    (fix.shift d).judge (Bindings.find? (symbols.shift d)) (origin + d) =
      fix.judge (Bindings.find? symbols) origin := by
  have hshifted : ¬ (fix.shift d).ofs < origin + d := by
    show ¬ fix.ofs + d < origin + d
    omega
  have hsym : Bindings.find? (symbols.shift d) (fix.shift d).sym =
      (Bindings.find? symbols fix.sym).map (SymbolValue.shift d) :=
    Bindings.find?_shift symbols fix.sym
  rw [judge, judge, if_neg hshifted, if_neg (Int.not_lt.2 hofs), hsym]
  rcases hfound : Bindings.find? symbols fix.sym with _ | value
  · rfl
  · cases value with
    | text text => cases hlabel (.text text) hfound
    | number n =>
      -- The symbol and the place that it is measured from are shifted alike.
      have hadjust : (fix.shift d).adjust (n + d) = fix.adjust n := by
        have hstays : (fix.shift d).iprel = true := hrelative
        rw [adjust, adjust, if_pos hstays, if_pos hrelative]
        show n + d - (fix.ofs + d + fix.ipofs) = n - (fix.ofs + fix.ipofs)
        omega
      show Verdict.fill ((fix.shift d).adjust (n + d)) = .fill (fix.adjust n)
      rw [hadjust]

theorem Placed.le_ofs_of_mem_fixups {p : Placed} {fix : Fixup} (h : fix ∈ p.fixups) :
    p.address ≤ fix.ofs := by
  rw [fixups] at h
  split at h
  · exact Int.le_of_eq (Instruction.mem_fixupsOf h).1.symm
  · obtain ⟨⟨place, token⟩, -, htoken⟩ := List.mem_filterMap.1 h
    simp only at htoken
    split at htoken
    · cases htoken
    · cases htoken
      show p.address ≤ p.address + place
      omega
  · cases h

namespace Assembler

variable {library : Option Library} {nested : List String → Assembler → List Event}
  {lines : List String} {a : Assembler} {d : Int}

/-! ## Behind the origin -/

/-- Whether nothing is in front of the image: no field that waits for a symbol, and no record. -/
structure Behind (a : Assembler) : Prop where
  fixups : ∀ fix ∈ a.fixups.toList, a.origin ≤ fix.ofs
  records : ∀ record ∈ a.records.toList, a.origin ≤ record.offset

/-- Only a new origin can leave something in front of the image. -/
theorem Behind.apply (h : a.Behind) (hs : a.Sound) {e : Event} (he : e.isMove = false) :
    (a.apply e).Behind := by
  cases e with
  | emit emission =>
    have hemitted := emitted hs emission
    have horigin : (a.apply (.emit emission)).origin = a.origin := by rw [hemitted.frame]
    have hfixups : (a.apply (.emit emission)).fixups.toList =
        a.fixups.toList ++ (a.place emission).fixups := by
      rw [hemitted.frame]
      exact Array.toList_append
    have hrecords : (a.apply (.emit emission)).records.toList =
        a.records.toList ++ [(a.place emission).record] := by
      rw [hemitted.frame]
      exact Array.toList_push
    -- What is queued stands at the next address, which is not in front of the image.
    refine ⟨?_, ?_⟩
    · rw [horigin, hfixups, List.forall_mem_append]
      refine ⟨h.fixups, fun fix hfix => ?_⟩
      exact Int.le_trans hs.origin_le (Placed.le_ofs_of_mem_fixups hfix)
    · rw [horigin, hrecords, List.forall_mem_append]
      refine ⟨h.records, List.forall_mem_singleton.2 hs.origin_le⟩
  | width n =>
    rw [Assembler.apply, setWidth]
    split <;> exact ⟨h.fixups, h.records⟩
  | origin address => cases he
  | align n => cases he
  | _ => exact ⟨h.fixups, h.records⟩

theorem Behind.replay (h : a.Behind) (hs : a.Sound) {events : List Event}
    (hstays : ∀ e ∈ events, e.isMove = false) : (Assembler.replay events a).Behind := by
  induction events generalizing a with
  | nil => exact h
  | cons e rest ih =>
    obtain ⟨he, hrest⟩ := List.forall_mem_cons.1 hstays
    exact ih (h.apply hs he) (hs.apply e) hrest

/-! ## Relocation -/

/-- An assembler with all its addresses shifted, those of its labels among them. -/
def relocate (d : Int) (a : Assembler) : Assembler :=
  a.shift d (a.symbols.shift d)

/-- Whether lines can be met at any address.  They do not move the address to a given place; every
symbol that they refer to is used by its distance, and does not stand for a text in the end. -/
structure Relocatable (library : Option Library) (lines : List String) (a : Assembler) : Prop where
  stays : ∀ e ∈ trace library lines a, e.isMove = false
  relative : ∀ fix ∈ (assembleLines library lines a).fixups.toList, fix.iprel = true
  labels : ∀ fix ∈ (assembleLines library lines a).fixups.toList,
    ∀ value ∈ Bindings.find? (assembleLines library lines a).symbols fix.sym, value.isText = false

/-- Relocatable lines end in a relocated assembler if they start in one. -/
theorem Relocatable.assembleLines (h : Relocatable library lines a) (hs : a.Sound) (d : Int) :
    Assembler.assembleLines library lines (a.relocate d) =
      (Assembler.assembleLines library lines a).relocate d := by
  have hmovable : ∀ e ∈ trace library lines a, e.Movable d := fun e he => .inr (h.stays e he)
  rw [relocate, assembleLines_shift hs hmovable, Bindings.after_shift, ← symbols_assembleLines hs,
    relocate]

/-- Relocatable lines are finished alike wherever they started. -/
theorem Relocatable.finish (h : Relocatable library lines a) (hs : a.Sound) (hbehind : a.Behind)
    (d : Int) :
    Assembler.finish.runFrom ((Assembler.assembleLines library lines a).relocate d) =
      ((Assembler.finish.runFrom (Assembler.assembleLines library lines a)).1,
        (Assembler.finish.runFrom (Assembler.assembleLines library lines a)).2.relocate d) := by
  have hsreached := hs.assembleLines library lines
  have hreached : (Assembler.assembleLines library lines a).Behind := by
    rw [assembleLines_eq_replay]
    exact hbehind.replay hs h.stays
  have hmirrors := mirrors_finish hsreached
    (fun fix hfix => Fixup.judge_shift (d := d) (hreached.fixups fix hfix) (h.relative fix hfix)
      (h.labels fix hfix))
    fun record hrecord => .inr (hreached.records record hrecord)
  rw [Attempt.Mirrors] at hmirrors
  rw [relocate, hmirrors, relocate, symbols_finish hsreached]

/-! ## The line that sets the origin -/

/-- The line that starts a program at an address. -/
def orgLine (address : Int) : String :=
  ".org " ++ Radix.decimal address

omit [Machine] in
theorem toList_orgLine (address : Int) :
    (orgLine address).toList = ".org".toList ++ ' ' :: (Radix.decimal address).toList := by
  rw [orgLine, String.toList_append]
  rfl

omit [Machine] in
theorem parse_orgLine (address : Int) :
    Statement.parse (orgLine address) = ⟨none, .directive (orgLine address)⟩ := by
  refine Statement.parse_directive ?_ (fun c hc => ?_) ?_ <;> rw [toList_orgLine] at *
  · rfl
  · have hlast := List.getLast?_eq_some_getLast (Radix.decimal_ne_nil address)
    rw [List.getLast?_append, List.getLast?_cons, hlast] at hc
    obtain rfl : (Radix.decimal address).toList.getLast _ = c := by simpa using hc
    exact Radix.not_isBlank_of_mem_decimal (List.getLast_mem _)
  · rw [List.mem_append, List.mem_cons]
    rintro (h | h | h)
    · exact absurd h (by decide)
    · cases h
    · exact Radix.semicolon_not_mem_decimal address h

/-- The line is counted and sets the origin. -/
theorem lineEvents_orgLine {address : Int} (h : Radix.hasDecimal address = true) (a : Assembler) :
    lineEvents library nested (orgLine address) a = [.count, .origin address] := by
  have hword : ∀ c ∈ ".org".toList, Text.isBlank c = false := by
    intro c hc
    have hall : ".org".toList.all (fun c => !Text.isBlank c) = true := by decide
    simpa using List.all_eq_true.1 hall c hc
  obtain ⟨hcommand, hargs⟩ := Command.parse_two_words (toList_orgLine address) hword
    (Radix.decimal_ne_nil address) fun c hc => Radix.not_isBlank_of_mem_decimal hc
  rw [String.ofList_toList] at hcommand hargs
  have hdirective : Directive.ofWord? (Text.lower ".org") = some .org := by decide
  rw [lineEvents, parse_orgLine]
  simp only [headEvents, bodyEvents, directiveEvents, hcommand, hargs, hdirective, numberEvents,
    Literal.parse_decimal h]
  rfl

theorem assembleLines_orgLine {address : Int} (h : Radix.hasDecimal address = true)
    (active : Option InstructionSet) :
    assembleLines library [orgLine address] (fresh active) =
      ((fresh active).apply .count).apply (.origin address) := by
  have hfresh : (fresh active).aborted = false := by cases active <;> rfl
  rw [assembleLines_singleton library _ hfresh, lineEvents_orgLine h]
  rfl

/-- **Relative code is position independent.**  Let the same relocatable lines be assembled from two
origins.  Finishing has the same result in both runs, and the second run ends as the first one does
with all its addresses shifted: the address of the next word, the origin, the place of every record
and the value of every label.  Words, diagnostics, texts of records and whether the run has stopped
are the same. -/
theorem finish_eq_relocate (library : Option Library) (active : Option InstructionSet)
    {start d : Int}
    {lines : List String} (hstart : Radix.hasDecimal start = true)
    (hshifted : Radix.hasDecimal (start + d) = true)
    (h : Relocatable library lines (assembleLines library [orgLine start] (fresh active))) :
    let near := assembleLines library ([orgLine start] ++ lines) (fresh active)
    let far := assembleLines library ([orgLine (start + d)] ++ lines) (fresh active)
    far = near.relocate d ∧
      finish.runFrom far = ((finish.runFrom near).1, (finish.runFrom near).2.relocate d) := by
  intro near far
  have hs : (assembleLines library [orgLine start] (fresh active)).Sound :=
    (follows_fresh active).sound.assembleLines library _
  have hbehind : (assembleLines library [orgLine start] (fresh active)).Behind := by
    rw [assembleLines_orgLine hstart]
    cases active <;> exact ⟨List.forall_mem_nil _, List.forall_mem_nil _⟩
  -- After their first lines the two runs are apart by the shift, and nothing is bound yet.
  have hbase : assembleLines library [orgLine (start + d)] (fresh active) =
      (assembleLines library [orgLine start] (fresh active)).relocate d := by
    rw [assembleLines_orgLine hstart, assembleLines_orgLine hshifted]
    cases active <;> simp [relocate, shift, apply, setOrigin, fresh, activate, Image.shift,
      Bindings.shift]
  have hfar : far = near.relocate d := by
    show assembleLines library ([orgLine (start + d)] ++ lines) (fresh active) = relocate d
      (assembleLines library ([orgLine start] ++ lines) (fresh active))
    rw [assembleLines_append, assembleLines_append, hbase, h.assembleLines hs]
  refine ⟨hfar, ?_⟩
  have hnear : near = assembleLines library lines
      (assembleLines library [orgLine start] (fresh active)) :=
    assembleLines_append library [orgLine start] lines (fresh active)
  rw [hfar, hnear]
  exact h.finish hs hbehind d

end Assembler

end

namespace Assembler

open UsualMachine in
/-- Branches forward and backward, moved to addresses below zero. -/
theorem finish_eq_relocate_branching :
    let active := (InstructionSet.ofDocument "branching" branching).toOption
    let lines := ["top: br NZ, done", ".data 1 2", "done: br c, top"]
    let near := assembleLines none ([orgLine 4] ++ lines) (fresh active)
    let far := assembleLines none ([orgLine (4 + -20)] ++ lines) (fresh active)
    (finish.runFrom near).2.image.words = #[11, 32, 3, 1, 2, 11, 95, 249] ∧
      finish.runFrom far = ((finish.runFrom near).1, (finish.runFrom near).2.relocate (-20)) := by
  intro active lines near far
  have hlines : Relocatable none lines (assembleLines none [orgLine 4] (fresh active)) :=
    ⟨by decide +kernel, by decide +kernel, by decide +kernel⟩
  have hwords : (finish.runFrom near).2.image.words = #[11, 32, 3, 1, 2, 11, 95, 249] := by
    decide +kernel
  exact ⟨hwords, (finish_eq_relocate none active (by decide +kernel) (by decide +kernel) hlines).2⟩

end Assembler

end Retarget
