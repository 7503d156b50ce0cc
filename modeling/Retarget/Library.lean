import Retarget.Bindings
import Retarget.Fault

/-!
# Libraries

A library provides the documents that a program names: architectures, and sources to include.
-/

namespace Retarget

/-- How a program names a source. -/
inductive SourceKind where
  | includes
  | modules
  deriving DecidableEq, Repr

/-- The word for a kind of source. -/
def SourceKind.word : SourceKind → String
  | includes => "include"
  | modules => "module"

/-- Where documents come from. -/
structure Library where
  /-- The description of an architecture. -/
  arch : String → Except Fault Document
  /-- The text of a source. -/
  source : SourceKind → String → Except Fault String

namespace Library

/-- The document of a name among those of a kind. -/
def provide {α : Type} (kind : String) (documents : Bindings α) (name : String) : Except Fault α :=
  match Bindings.find? documents name with
  | some document => .ok document
  | none => .error (.load ⟨kind, name, "no such document"⟩)

/-- The library of given documents. -/
def ofDocuments (archs : Bindings Document) (includes modules : Bindings String) : Library where
  arch := provide "arch" archs
  source
    | .includes => provide "include" includes
    | .modules => provide "module" modules

end Library

end Retarget
