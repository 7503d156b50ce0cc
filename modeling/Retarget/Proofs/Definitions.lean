import Retarget.Proofs.Inclusion
import Retarget.Proofs.Shifted

/-!
# Where a symbol is defined

A line that defines a symbol puts a text under its name and does nothing else that a later line
could see: symbols are read for the first time when all lines are assembled.  So the line can be
taken away from its place and put down at an empty line further on (`definition_moved`).  Between
the two places no other line may bind the same name, since the last one to do so wins; before and
after them any line may.

The two runs differ in the order in which names are bound, and in nothing else: wherever finishing
ends, by success or by a fault, the words, records and diagnostics are the same.
-/

namespace Retarget

/-! ## Symbols bound in another order -/

namespace Event

variable [Machine]

/-- Whether an event binds a name. -/
def binds (name : String) : Event → Bool
  | .bind other _ => other == name
  | _ => false

end Event

namespace Bindings

variable [Machine]

omit [Machine] in
theorem find?_bind {α : Type} (b : Bindings α) (name other : String) (value : α) :
    find? (bind b name value) other = if name = other then some value else find? b other := by
  split
  · rename_i h
    rw [← h, find?_bind_self]
  · rename_i h
    exact find?_bind_of_ne b value h

variable {symbols symbols' : Symbols} {events : List Event}

/-- Events look up nothing: symbols of equal values have equal values after them. -/
theorem find?_after (h : ∀ name, find? symbols name = find? symbols' name) (name : String) :
    find? (symbols.after events) name = find? (symbols'.after events) name := by
  induction events generalizing symbols symbols' with
  | nil => exact h name
  | cons e rest ih =>
    refine ih fun other => ?_
    cases e with
    | bind bound value =>
      show find? (bind symbols bound value) other = find? (bind symbols' bound value) other
      rw [find?_bind, find?_bind, h]
    | _ => exact h other

/-- A name may be bound before or after events that do not bind it. -/
theorem find?_bind_after {name : String} (h : ∀ e ∈ events, e.binds name = false)
    (value : SymbolValue) (other : String) :
    find? ((bind symbols name value).after events) other =
      find? (bind (symbols.after events) name value) other := by
  induction events generalizing symbols with
  | nil => rfl
  | cons e rest ih =>
    obtain ⟨he, hrest⟩ := List.forall_mem_cons.1 h
    cases e with
    | bind bound text =>
      have hne : bound ≠ name := by
        rintro rfl
        rw [Event.binds, beq_self_eq_true] at he
        cases he
      show find? ((bind (bind symbols name value) bound text).after rest) other =
        find? (bind ((bind symbols bound text).after rest) name value) other
      -- Two bindings of different names can change places before the rest is met.
      rw [← ih hrest]
      refine find?_after (fun sought => ?_) other
      rw [find?_bind, find?_bind, find?_bind, find?_bind]
      by_cases hbound : bound = sought
      · rw [if_pos hbound, if_pos hbound, if_neg fun hname => hne (hbound.trans hname.symm)]
      · rw [if_neg hbound, if_neg hbound]
    | _ => exact ih hrest

end Bindings

/-! ## Lines that define a symbol -/

/-- The symbol that a statement defines and the text it stands for, if it does nothing but define
one. -/
def Statement.definition? (statement : Statement) : Option (String × String) :=
  match statement.label, statement.body with
  | none, .directive text =>
    match Directive.ofWord? (Text.lower (Command.parse text).word), (Command.parse text).args with
    | some .define, name :: value :: _ => some (Text.lower name, value)
    | _, _ => none
  | _, _ => none

namespace Assembler

section

variable [Machine]

variable {library : Option Library} {nested : List String → Assembler → List Event}
  {line name value : String} {lines : List String} {a : Assembler}

/-- A definition is counted and binds its symbol. -/
theorem lineEvents_of_definition
    (h : (Statement.parse line).definition? = some (name, value)) (a : Assembler) :
    lineEvents library nested line a = [.count, .bind name (.text value)] := by
  rw [lineEvents]
  generalize Statement.parse line = statement at h ⊢
  obtain ⟨label, body⟩ := statement
  rw [Statement.definition?] at h
  split at h
  · rename_i text hlabel hbody
    obtain rfl : label = none := hlabel
    obtain rfl : body = .directive text := hbody
    split at h
    · rename_i hword hargs
      cases h
      simp only [headEvents, bodyEvents, directiveEvents, hword, hargs]
      rfl
    · cases h
  · cases h

theorem assembleLines_definition
    (h : (Statement.parse line).definition? = some (name, value)) (ha : a.aborted = false) :
    assembleLines library [line] a =
      (a.apply .count).withSymbols (Bindings.bind a.symbols name (.text value)) := by
  rw [assembleLines_singleton library line ha, lineEvents_of_definition h]
  rfl

/-- An empty line is counted. -/
theorem assembleLines_empty (ha : a.aborted = false) :
    assembleLines library [""] a = a.apply .count := by
  rw [assembleLines_singleton library "" ha]
  rfl

/-- Lines do not see symbols; they only bind some. -/
theorem assembleLines_withSymbols (hs : a.Sound) (library : Option Library) (lines : List String)
    (symbols : Symbols) :
    assembleLines library lines (a.withSymbols symbols) =
      (assembleLines library lines a).withSymbols (symbols.after (trace library lines a)) := by
  have hmovable : ∀ e ∈ trace library lines a, e.Movable 0 := fun e _ => .inl rfl
  have hshift := assembleLines_shift hs hmovable symbols
  rw [shift_zero, shift_zero, show Event.shift 0 = id from funext Event.shift_zero,
    List.map_id] at hshift
  exact hshift

/-- **The rest of a program behind a definition.**  Lines that follow it up to an empty line are met
as if the definition stood in place of that line. -/
theorem assembleLines_moved (hs : a.Sound)
    (hline : (Statement.parse line).definition? = some (name, value)) {between after : List String}
    (hbinds : ∀ e ∈ trace library between (assembleLines library [line] a), e.binds name = false)
    (hfirst : (assembleLines library ([line] ++ between ++ [""] ++ after) a).aborted = false) :
    ∃ symbols : Symbols,
      (∀ other, Bindings.find? symbols other = Bindings.find?
        (assembleLines library ([line] ++ between ++ [""] ++ after) a).symbols other) ∧
      assembleLines library ([""] ++ between ++ [line] ++ after) a =
        (assembleLines library ([line] ++ between ++ [""] ++ after) a).withSymbols symbols := by
  simp only [assembleLines_append] at hfirst ⊢
  have hlate := aborted_of_assembleLines (aborted_of_assembleLines hfirst)
  have hearly := aborted_of_assembleLines (aborted_of_assembleLines hlate)
  -- The definition makes the only difference between what its two places meet.
  have hdefined : assembleLines library [line] a =
      (a.apply .count).withSymbols (Bindings.bind a.symbols name (.text value)) :=
    assembleLines_definition hline hearly
  have hskipped : assembleLines library [""] a =
      (assembleLines library [line] a).withSymbols a.symbols := by
    rw [assembleLines_empty hearly, hdefined]
    rfl
  have hsdefined : (assembleLines library [line] a).Sound := hs.assembleLines library [line]
  rw [hskipped, assembleLines_withSymbols hsdefined]
  -- The lines between have bound the same names in both runs.
  set reached := assembleLines library between (assembleLines library [line] a) with hreached
  set events := trace library between (assembleLines library [line] a)
  have hbound : assembleLines library [line] (reached.withSymbols (a.symbols.after events)) =
      (reached.apply .count).withSymbols
        (Bindings.bind (a.symbols.after events) name (.text value)) :=
    assembleLines_definition hline hlate
  have hscounted : (reached.apply .count).Sound :=
    (hsdefined.assembleLines library between).apply .count
  rw [assembleLines_empty hlate, hbound, assembleLines_withSymbols hscounted]
  refine ⟨_, fun other => ?_, rfl⟩
  -- In the first run the name was bound before the events between, in the second one after them.
  have hlast : (assembleLines library after (reached.apply .count)).symbols =
      ((Bindings.bind a.symbols name (.text value)).after events).after
        (trace library after (reached.apply .count)) := by
    have hsymbols :
        reached.symbols = (Bindings.bind a.symbols name (.text value)).after events := by
      have hstart : (assembleLines library [line] a).symbols =
          Bindings.bind a.symbols name (.text value) := by
        rw [hdefined]
        rfl
      rw [hreached, symbols_assembleLines hsdefined, hstart]
    rw [symbols_assembleLines hscounted, ← hsymbols]
    rfl
  rw [hlast]
  exact Bindings.find?_after (fun sought => (Bindings.find?_bind_after hbinds _ sought).symm) other

/-- **The place of a definition does not matter.**  Let a program that does not stop define a symbol
in one line, and let no line between it and a later empty one bind the same name.  With the two
lines exchanged the program does not stop either, every symbol has the same value, and finishing has
the same result and leaves the same assembler but for the order of the symbols. -/
theorem definition_moved (library : Option Library) (active : Option InstructionSet)
    {before between after : List String} {line name value : String}
    (hline : (Statement.parse line).definition? = some (name, value))
    (hbinds : ∀ e ∈ trace library between (assembleLines library (before ++ [line]) (fresh active)),
      e.binds name = false)
    (hfirst : (assembleLines library (before ++ [line] ++ between ++ [""] ++ after)
      (fresh active)).aborted = false) :
    let first := assembleLines library (before ++ [line] ++ between ++ [""] ++ after) (fresh active)
    let second :=
      assembleLines library (before ++ [""] ++ between ++ [line] ++ after) (fresh active)
    second.aborted = false ∧
      (∀ other, Bindings.find? second.symbols other = Bindings.find? first.symbols other) ∧
      finish.runFrom second =
        ((finish.runFrom first).1, (finish.runFrom first).2.withSymbols second.symbols) := by
  intro first second
  have hs : (assembleLines library before (fresh active)).Sound :=
    (follows_fresh active).sound.assembleLines library before
  have hsplit : ∀ x y : String, assembleLines library (before ++ [x] ++ between ++ [y] ++ after)
      (fresh active) = assembleLines library ([x] ++ between ++ [y] ++ after)
        (assembleLines library before (fresh active)) := by
    intro x y
    rw [← assembleLines_append]
    simp only [List.append_assoc]
  rw [assembleLines_append] at hbinds
  rw [hsplit] at hfirst
  obtain ⟨symbols, hfind, hmoved⟩ := assembleLines_moved hs hline hbinds hfirst
  rw [← hsplit, ← hsplit] at hmoved
  rw [← hsplit] at hfind hfirst
  have hsfirst : first.Sound := (follows_fresh active).sound.assembleLines library _
  have hsecond : second = first.withSymbols symbols := hmoved
  rw [hsecond]
  exact ⟨hfirst, hfind, finish_withSymbols hsfirst hfind⟩

end

open UsualMachine in
/-- A symbol that is referred to before, between and after the two places of its definition. -/
theorem definition_moved_data :
    let first := assembleLines none ([".data foo"] ++ [".define Foo 5"] ++ ["bar: .data foo 1"] ++
      [""] ++ [".data FOO bar"]) (fresh none)
    let second := assembleLines none ([".data foo"] ++ [""] ++ ["bar: .data foo 1"] ++
      [".define Foo 5"] ++ [".data FOO bar"]) (fresh none)
    (finish.runFrom first).2.image.words = #[5, 5, 1, 5, 1] ∧
      finish.runFrom second =
        ((finish.runFrom first).1, (finish.runFrom first).2.withSymbols second.symbols) := by
  intro first second
  have hline : (Statement.parse ".define Foo 5").definition? = some ("foo", "5") := by
    decide +kernel
  have hbinds : ∀ e ∈ trace none ["bar: .data foo 1"]
      (assembleLines none ([".data foo"] ++ [".define Foo 5"]) (fresh none)),
      e.binds "foo" = false := by
    decide +kernel
  have hfirst : first.aborted = false := by decide +kernel
  have hwords : (finish.runFrom first).2.image.words = #[5, 5, 1, 5, 1] := by decide +kernel
  exact ⟨hwords, (definition_moved none none hline hbinds hfirst).2.2⟩

end Assembler

end Retarget
