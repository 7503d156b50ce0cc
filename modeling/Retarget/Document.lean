import Retarget.Bindings

/-!
# Documents

The values of the data format in which architectures are written.  Whole numbers and reals are
different kinds of value, and the entries of an object keep the order in which they were given.
-/

namespace Retarget

/-- A value of the data format. -/
inductive Document where
  | null
  | bool (value : Bool)
  | int (value : Int)
  | real (value : Float)
  | text (value : String)
  | list (items : List Document)
  | object (entries : List (String × Document))
  deriving Inhabited

namespace Document

/-- The word for the kind of a value in messages. -/
def kindName : Document → String
  | null => "NoneType"
  | bool _ => "bool"
  | int _ => "int"
  | real _ => "float"
  | text _ => "str"
  | list _ => "list"
  | object _ => "dict"

/-- Whether a value is taken as given rather than as left out: zeros, empty values, `false` and
`null` are not. -/
def isGiven : Document → Bool
  | null => false
  | bool value => value
  | int value => value != 0
  | real value => value != 0.0
  | text value => value != ""
  | list items => !items.isEmpty
  | object entries => !entries.isEmpty

/-- The value of a key; an absent key has the value `null`. -/
def key (entries : List (String × Document)) (name : String) : Document :=
  (Bindings.find? entries name).getD null

/-- The texts in a list of values, if all of them are texts. -/
def texts? : List Document → Option (List String)
  | [] => some []
  | text s :: rest => (texts? rest).map (s :: ·)
  | _ :: _ => none

end Document

end Retarget
