/-!
# Bindings

Values under names, in the order in which the names were first bound.  Binding a name again replaces
its value and keeps its place.
-/

namespace Retarget

/-- Values under names, oldest name first. -/
abbrev Bindings (α : Type) := List (String × α)

namespace Bindings

variable {α : Type}

/-- The value bound to a name. -/
def find? : Bindings α → String → Option α
  | [], _ => none
  | (key, value) :: rest, name => if key = name then some value else find? rest name

/-- Binds a name, in its old place if it has one and at the end otherwise. -/
def bind : Bindings α → String → α → Bindings α
  | [], name, value => [(name, value)]
  | (key, old) :: rest, name, value =>
    if key = name then (key, value) :: rest else (key, old) :: bind rest name value

/-- The names that are bound, oldest first. -/
def names (b : Bindings α) : List String :=
  b.map Prod.fst

/-- Whether a name is bound. -/
def has (b : Bindings α) (name : String) : Bool :=
  (find? b name).isSome

/-- Binds a list of names one after the other. -/
def ofList (entries : List (String × α)) : Bindings α :=
  entries.foldl (fun b entry => bind b entry.1 entry.2) []

/-- The name just bound has its new value. -/
@[simp] theorem find?_bind_self (b : Bindings α) (name : String) (value : α) :
    find? (bind b name value) name = some value := by
  induction b with
  | nil => simp [bind, find?]
  | cons entry rest ih =>
    obtain ⟨key, old⟩ := entry
    by_cases h : key = name <;> simp [bind, find?, h, ih]

/-- Binding a name leaves every other name alone. -/
theorem find?_bind_of_ne (b : Bindings α) {name other : String} (value : α) (h : name ≠ other) :
    find? (bind b name value) other = find? b other := by
  induction b with
  | nil => simp [bind, find?, h]
  | cons entry rest ih =>
    obtain ⟨key, old⟩ := entry
    by_cases hk : key = name
    · subst hk; simp [bind, find?, h]
    · by_cases ho : key = other
      · subst ho; simp [bind, find?, hk]
      · simp [bind, find?, hk, ho, ih]

end Bindings

end Retarget
