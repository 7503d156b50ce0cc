import Retarget.Proofs.Trace

/-!
# Runs in step

Here two runs of the same lines are compared that start from different assemblers.  They are in step
if their assemblers stay related and every event of the one is matched by an event of the other.

Few lines look at the assembler that they meet: a label is bound to its address, an instruction is
built by its rules, and no line is read once it has stopped.  `InStep` collects what a relation has
to say about these, and about the change that matched events make.  It then holds along whole
programs and the sources that they include (`InStep.trace`, `InStep.assembleLines`).

`Attempt.Mirrors` says the same of two attempts, where the one state is a function of the other.
-/

namespace Retarget

/-! ## Attempts in step -/

namespace Attempt

variable {σ τ α β : Type} {f : σ → τ} {s : σ}

/-- Whether `y` does to the image of a state under `f` what `x` does to the state. -/
def Mirrors (f : σ → τ) (x : Attempt σ α) (y : Attempt τ α) (s : σ) : Prop :=
  y.runFrom (f s) = ((x.runFrom s).1, f (x.runFrom s).2)

theorem Mirrors.of_run {x : Attempt σ α} {y : Attempt τ α} {v : Except Fault α} {t : σ}
    (hx : x.runFrom s = (v, t)) (hy : y.runFrom (f s) = (v, f t)) : Mirrors f x y s := by
  rw [Mirrors, hx, hy]

/-- Two steps mirror two others if each of them does. -/
theorem Mirrors.bind {x : Attempt σ α} {y : Attempt τ α} {g : α → Attempt σ β}
    {g' : α → Attempt τ β} (h : Mirrors f x y s)
    (hg : ∀ v t, x.runFrom s = (.ok v, t) → Mirrors f (g v) (g' v) t) :
    Mirrors f (x >>= g) (y >>= g') s := by
  rw [Mirrors] at h
  rcases hx : x.runFrom s with ⟨fault | v, t⟩
  · rw [hx] at h
    exact .of_run (runFrom_bind_error hx g) (runFrom_bind_error h g')
  · rw [hx] at h
    rw [Mirrors, runFrom_bind_ok hx, runFrom_bind_ok h]
    exact hg v t hx

/-- A step that reads the state mirrors one that reads the image of the state. -/
theorem Mirrors.get_bind {g : σ → Attempt σ β} {g' : τ → Attempt τ β}
    (h : Mirrors f (g s) (g' (f s)) s) : Mirrors f (get >>= g) (get >>= g') s := by
  rw [Mirrors, runFrom_bind_ok (runFrom_get s), runFrom_bind_ok (runFrom_get (f s))]
  exact h

theorem Mirrors.ofExcept (result : Except Fault α) :
    Mirrors f (Attempt.ofExcept result) (Attempt.ofExcept result) s := rfl

/-- Changes of state that commute with the map mirror each other. -/
theorem Mirrors.modify {g : σ → σ} {g' : τ → τ} (h : g' (f s) = f (g s)) :
    Mirrors f (modify g : Attempt σ PUnit) (modify g') s := by
  rw [Mirrors, runFrom_modify, runFrom_modify, h]

/-- Attempts on a part of the state. -/
theorem Mirrors.on {ρ : Type} {g : ρ → ρ} {x y : Attempt ρ α} {part : σ → ρ} {part' : τ → ρ}
    {update : ρ → σ → σ} {update' : ρ → τ → τ} (h : Mirrors g x y (part s))
    (hpart : part' (f s) = g (part s)) (hupdate : ∀ r, update' (g r) (f s) = f (update r s)) :
    Mirrors f (Attempt.on part update x) (Attempt.on part' update' y) s := by
  rw [Mirrors] at h
  rw [Mirrors, runFrom_on, runFrom_on, hpart, h, hupdate]

/-- Steps that mirror each other wherever `post` holds, if they keep it. -/
theorem Mirrors.each (post : σ → Prop) {g : β → Attempt σ Unit} {g' : β → Attempt τ Unit}
    {xs : List β} (hs : post s) (hg : ∀ x ∈ xs, ∀ t, post t → Mirrors f (g x) (g' x) t)
    (hpost : ∀ x ∈ xs, ∀ t u, post t → (g x).runFrom t = (.ok (), u) → post u) :
    Mirrors f (Attempt.each g xs) (Attempt.each g' xs) s := by
  induction xs generalizing s with
  | nil => rfl
  | cons x rest ih =>
    refine (hg x List.mem_cons_self s hs).bind fun u t ht => ?_
    exact ih (hpost x List.mem_cons_self s t hs ht)
      (fun y hy => hg y (List.mem_cons_of_mem x hy))
      (fun y hy => hpost y (List.mem_cons_of_mem x hy))

end Attempt

/-- What happens in step also does so where faults are told. -/
theorem Assembler.guarded_of_mirrors {α : Type} {f : Assembler → Assembler}
    {x y : Attempt Assembler α} {a : Assembler}
    (hstop : ∀ b notice, (f b).stop notice none = f (b.stop notice none))
    (h : Attempt.Mirrors f x y a) : guarded y (f a) = f (guarded x a) := by
  unfold Attempt.Mirrors at h
  rcases hx : x.runFrom a with ⟨fault | v, b⟩
  · rw [hx] at h
    rw [guarded_of_error hx, guarded_of_error h, hstop]
  · rw [hx] at h
    rw [guarded_of_ok hx, guarded_of_ok h]

variable [Machine]

namespace Event

/-- Whether an event binds a label. -/
def isLabel : Event → Bool
  | .bind _ (.number _) => true
  | _ => false

end Event

namespace Assembler

open Attempt

/-! ## Programs in step -/

/-- Whether runs from related assemblers stay in step, as far as all that the first one meets is
allowed: both stop together, matched events keep the relation, and labels, instructions and all that
does not depend on the assembler are matched. -/
structure InStep (related : Assembler → Assembler → Prop) (matched : Event → Event → Prop)
    (allowed : Event → Prop) : Prop where
  aborted : ∀ {a b}, related a b → b.aborted = a.aborted
  apply : ∀ {a b e e'}, related a b → matched e e' → allowed e → related (a.apply e) (b.apply e')
  label : ∀ {a b}, related a b → ∀ name,
    matched (.bind name (.number a.ip)) (.bind name (.number b.ip))
  instruction : ∀ {a b}, related a b → ∀ text, (∀ e ∈ instructionEvents a text, allowed e) →
    List.Forall₂ matched (instructionEvents a text) (instructionEvents b text)
  same : ∀ e : Event, e.isLabel = false → matched e e

section InStep

variable {related : Assembler → Assembler → Prop} {matched : Event → Event → Prop}
  {allowed : Event → Prop} {a b : Assembler}

/-- Matched events keep the relation. -/
theorem InStep.replay (h : InStep related matched allowed) {events events' : List Event}
    (hab : related a b) (hmatched : List.Forall₂ matched events events')
    (hallowed : ∀ e ∈ events, allowed e) : related (replay events a) (replay events' b) := by
  induction hmatched generalizing a b with
  | nil => exact hab
  | cons he _ ih =>
    obtain ⟨hfirst, hrest⟩ := List.forall_mem_cons.1 hallowed
    exact ih (h.apply hab he hfirst) hrest

/-- Whether lines give matched events to related assemblers, as far as they are allowed. -/
def Matches (related : Assembler → Assembler → Prop) (matched : Event → Event → Prop)
    (allowed : Event → Prop) (events : Assembler → List Event) : Prop :=
  ∀ a b, related a b → (∀ e ∈ events a, allowed e) → List.Forall₂ matched (events a) (events b)

theorem isLabel_archEvents (library : Option Library) (name : String) :
    ∀ e ∈ archEvents library name, e.isLabel = false := by
  unfold archEvents
  repeat' split
  all_goals simp [Event.isLabel]

theorem isLabel_numberEvents (word token : String) {event : Int → Event}
    (h : ∀ n, (event n).isLabel = false) :
    ∀ e ∈ numberEvents word token event, e.isLabel = false := by
  unfold numberEvents
  split
  · simp [h]
  · simp [Event.isLabel]

variable {library : Option Library} {nested : List String → Assembler → List Event}
  (h : InStep related matched allowed)

include h

/-- What does not depend on the assembler is matched by itself. -/
theorem InStep.refl {events : List Event} (hevents : ∀ e ∈ events, e.isLabel = false) :
    List.Forall₂ matched events events :=
  List.forall₂_same.2 fun e he => h.same e (hevents e he)

theorem InStep.singleton {e : Event} (he : e.isLabel = false) : List.Forall₂ matched [e] [e] :=
  .cons (h.same e he) .nil

/-- The events of a source match, if the nested events do. -/
theorem InStep.sourceEvents (hnested : ∀ lines, Matches related matched allowed (nested lines))
    (kind : SourceKind) (name : String) :
    Matches related matched allowed (sourceEvents library nested kind name) := by
  intro a b hab hallowed
  rcases library with _ | lib
  · exact h.singleton rfl
  · simp only [Assembler.sourceEvents] at hallowed ⊢
    generalize lib.source kind name = found at hallowed ⊢
    rcases found with fault | text
    · cases fault <;> exact h.singleton rfl
    · exact hnested _ a b hab hallowed

/-- Of directives only the lines of a source see the assembler. -/
theorem InStep.directiveEvents (hnested : ∀ lines, Matches related matched allowed (nested lines))
    (text : String) :
    Matches related matched allowed (directiveEvents library nested · text) := by
  intro a b hab hallowed
  simp only [Assembler.directiveEvents] at hallowed ⊢
  generalize Command.parse text = command at hallowed ⊢
  generalize Text.lower command.word = word at hallowed ⊢
  generalize command.args = args at hallowed ⊢
  generalize Directive.ofWord? word = directive at hallowed ⊢
  rcases directive with _ | directive
  · exact h.singleton rfl
  · cases directive with
    | string => exact h.singleton rfl
    | data => exact h.singleton rfl
    | define => rcases args with _ | ⟨name, _ | ⟨value, more⟩⟩ <;> exact h.singleton rfl
    | arch =>
      rcases args with _ | ⟨name, more⟩
      · exact h.singleton rfl
      · exact h.refl (isLabel_archEvents library name)
    | source kind =>
      rcases args with _ | ⟨name, more⟩
      · exact h.singleton rfl
      · exact h.sourceEvents hnested kind name a b hab hallowed
    | org =>
      rcases args with _ | ⟨token, more⟩
      · exact h.singleton rfl
      · exact h.refl (isLabel_numberEvents word token fun _ => rfl)
    | len =>
      rcases args with _ | ⟨token, more⟩
      · exact h.singleton rfl
      · exact h.refl (isLabel_numberEvents word token fun _ => rfl)
    | width =>
      rcases args with _ | ⟨token, more⟩
      · exact h.singleton rfl
      · exact h.refl (isLabel_numberEvents word token fun _ => rfl)
    | align =>
      rcases args with _ | ⟨token, more⟩
      · exact h.singleton rfl
      · exact h.refl (isLabel_numberEvents word token fun _ => rfl)

/-- The events of a body match, if the nested events do. -/
theorem InStep.bodyEvents (hnested : ∀ lines, Matches related matched allowed (nested lines))
    (body : Body) : Matches related matched allowed (bodyEvents library nested · body) := by
  intro a b hab hallowed
  cases body with
  | nothing => exact .nil
  | directive text =>
    simp only [Assembler.bodyEvents] at hallowed ⊢
    exact h.directiveEvents hnested text a b hab hallowed
  | instruction text =>
    simp only [Assembler.bodyEvents] at hallowed ⊢
    exact h.instruction hab text hallowed

/-- The label of a line matches. -/
theorem InStep.headEvents (hab : related a b) (statement : Statement) :
    List.Forall₂ matched (headEvents a statement) (headEvents b statement) := by
  unfold Assembler.headEvents
  cases statement.label with
  | none => exact h.singleton rfl
  | some name => exact .cons (h.same _ rfl) (.cons (h.label hab name) .nil)

/-- The body of a line meets the assemblers that the front of the line leaves, which are related as
well. -/
theorem InStep.lineEvents (hnested : ∀ lines, Matches related matched allowed (nested lines))
    (line : String) : Matches related matched allowed (lineEvents library nested line) := by
  intro a b hab hallowed
  simp only [Assembler.lineEvents, List.forall_mem_append] at hallowed ⊢
  have hfront := h.headEvents hab (Statement.parse line)
  exact List.rel_append hfront
    (h.bodyEvents hnested _ _ _ (h.replay hab hfront hallowed.1) hallowed.2)

/-- By induction on the lines: they stop together, and every line leaves related assemblers. -/
theorem InStep.traceLines {events : String → Assembler → List Event}
    (hevents : ∀ line, Matches related matched allowed (events line)) (lines : List String) :
    Matches related matched allowed (traceLines events lines) := by
  induction lines with
  | nil =>
    intro a b hab hallowed
    exact .nil
  | cons line rest ih =>
    intro a b hab hallowed
    rw [Assembler.traceLines] at hallowed ⊢
    rw [Assembler.traceLines, h.aborted hab]
    split at hallowed
    · rename_i haborted
      rw [if_pos haborted, if_pos haborted]
      exact .nil
    · rename_i haborted
      rw [List.forall_mem_append] at hallowed
      rw [if_neg haborted, if_neg haborted]
      have hline := hevents line a b hab hallowed.1
      exact List.rel_append hline (ih _ _ (h.replay hab hline hallowed.1) hallowed.2)

/-- The events of included lines match, however deep they are nested. -/
theorem InStep.traceNested (library : Option Library) (depth : Nat) :
    ∀ lines, Matches related matched allowed (traceNested library depth lines) := by
  induction depth with
  | zero =>
    intro lines a b hab hallowed
    exact h.singleton rfl
  | succ depth ih => exact h.traceLines fun line => h.lineEvents ih line

/-- **Related assemblers go through matched events.** -/
theorem InStep.trace (lines : List String) :
    Matches related matched allowed (trace library lines) :=
  h.traceLines (fun line => h.lineEvents (h.traceNested library Machine.nesting) line) lines

/-- **Related assemblers are left related by every program.** -/
theorem InStep.assembleLines {lines : List String} (hab : related a b)
    (hallowed : ∀ e ∈ Assembler.trace library lines a, allowed e) :
    related (assembleLines library lines a) (assembleLines library lines b) := by
  rw [assembleLines_eq_replay, assembleLines_eq_replay]
  exact h.replay hab (h.trace lines a b hab hallowed) hallowed

end InStep

end Assembler

end Retarget
