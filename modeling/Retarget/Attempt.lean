import Retarget.Fault

/-!
# Attempts

An attempt is an operation on a state that may fail part of the way.  What it changed before it
failed stays changed, so its result and the state it reached are always both given.
-/

namespace Retarget

/-- An operation on a state `σ` that may fail and keeps the state it reached. -/
abbrev Attempt (σ α : Type) := ExceptT Fault (StateM σ) α

namespace Attempt

variable {σ τ α : Type}

/-- Makes an attempt from a state: the result and the state reached. -/
def runFrom (attempt : Attempt σ α) (state : σ) : Except Fault α × σ :=
  attempt state

/-- Gives a result that is already known. -/
def ofExcept (result : Except Fault α) : Attempt σ α :=
  fun state => (result, state)

/-- Makes an attempt on a part of a larger state. -/
def on (part : σ → τ) (update : τ → σ → σ) (attempt : Attempt τ α) : Attempt σ α :=
  fun state =>
    let (result, reached) := attempt (part state)
    (result, update reached state)

/-- Makes an attempt for each element of a list, in order, until one fails. -/
def each {β : Type} (f : β → Attempt σ Unit) : List β → Attempt σ Unit
  | [] => pure ()
  | x :: rest => do
    f x
    each f rest

end Attempt

end Retarget
