import Retarget.Decimal.Shortest
import Retarget.Document
import Retarget.Radix
import Retarget.Text.Quoted

/-!
# Texts of documents

Three ways of writing a value: `display` inside a message, `compact` on one line of the data format,
and `indented` over several lines.  Texts of the data format are pure ASCII.
-/

namespace Retarget.Document

/-! ## Inside a message -/

mutual

/-- How a value is shown inside a message. -/
def display : Document → String
  | null => "None"
  | bool true => "True"
  | bool false => "False"
  | int n => Radix.decimal n
  | real x => Decimal.shortestText x
  | text s => Text.quoted s
  | list items => "[" ++ ", ".intercalate (displayItems items) ++ "]"
  | object entries => "\x7b" ++ ", ".intercalate (displayEntries entries) ++ "\x7d"

/-- The items of a list as they are shown. -/
def displayItems : List Document → List String
  | [] => []
  | item :: rest => display item :: displayItems rest

/-- The entries of an object as they are shown. -/
def displayEntries : List (String × Document) → List String
  | [] => []
  | (name, value) :: rest => (Text.quoted name ++ ": " ++ display value) :: displayEntries rest

end

/-- The text that a value stands for when a text is asked for: a text stands for itself. -/
def plain : Document → String
  | text s => s
  | other => display other

/-! ## The data format -/

/-- A sixteen-bit unit as an escape. -/
def unitEscape (n : Nat) : List Char :=
  '\\' :: 'u' :: Text.hexEscape 4 n

/-- One character of a text of the data format; above ASCII it is written as one escape or, from
`U+10000` on, as two. -/
def encodeChar (c : Char) : List Char :=
  let n := c.toNat
  if c == '"' || c == '\\' then ['\\', c]
  else if c == '\n' then ['\\', 'n']
  else if c == '\r' then ['\\', 'r']
  else if c == '\t' then ['\\', 't']
  else if n = 8 then ['\\', 'b']
  else if n = 12 then ['\\', 'f']
  else if 32 ≤ n ∧ n < 127 then [c]
  else if n < 0x10000 then unitEscape n
  else unitEscape (0xd800 + (n - 0x10000) / 0x400) ++ unitEscape (0xdc00 + (n - 0x10000) % 0x400)

/-- A text of the data format. -/
def encodeText (s : String) : String :=
  String.ofList (['"'] ++ s.toList.flatMap encodeChar ++ ['"'])

/-- A real of the data format. -/
def encodeReal (x : Float) : String :=
  match Decimal.parts x with
  | .notANumber => "NaN"
  | .infinite negative => if negative then "-Infinity" else "Infinity"
  | .finite .. => Decimal.shortestText x

mutual

/-- A value on one line. -/
def compact : Document → String
  | null => "null"
  | bool true => "true"
  | bool false => "false"
  | int n => Radix.decimal n
  | real x => encodeReal x
  | text s => encodeText s
  | list items => "[" ++ ",".intercalate (compactItems items) ++ "]"
  | object entries => "\x7b" ++ ",".intercalate (compactEntries entries) ++ "\x7d"

/-- The items of a list, each on one line. -/
def compactItems : List Document → List String
  | [] => []
  | item :: rest => compact item :: compactItems rest

/-- The entries of an object, each on one line. -/
def compactEntries : List (String × Document) → List String
  | [] => []
  | (name, value) :: rest => (encodeText name ++ ":" ++ compact value) :: compactEntries rest

end

/-- A line break followed by the indentation of a nesting depth. -/
def newLine (depth : Nat) : String :=
  String.ofList ('\n' :: List.replicate (2 * depth) ' ')

/-- A bracketed block with one part on each line; a block without parts stays on one line. -/
def block (opening closing : String) (depth : Nat) (blockParts : List String) : String :=
  if blockParts.isEmpty then opening ++ closing
  else opening ++ newLine (depth + 1) ++ ("," ++ newLine (depth + 1)).intercalate blockParts ++
    newLine depth ++ closing

mutual

/-- A value over several lines at a nesting depth. -/
def indentedAt (depth : Nat) : Document → String
  | null => "null"
  | bool true => "true"
  | bool false => "false"
  | int n => Radix.decimal n
  | real x => encodeReal x
  | text s => encodeText s
  | list items => block "[" "]" depth (indentedItems (depth + 1) items)
  | object entries => block "\x7b" "\x7d" depth (indentedEntries (depth + 1) entries)

/-- The items of a list over several lines. -/
def indentedItems (depth : Nat) : List Document → List String
  | [] => []
  | item :: rest => indentedAt depth item :: indentedItems depth rest

/-- The entries of an object over several lines. -/
def indentedEntries (depth : Nat) : List (String × Document) → List String
  | [] => []
  | (name, value) :: rest =>
    (encodeText name ++ ": " ++ indentedAt depth value) :: indentedEntries depth rest

end

/-- A value over several lines, each nesting level two columns to the right. -/
def indented (d : Document) : String :=
  indentedAt 0 d

mutual

/-- Whether every whole number in a value has a decimal text. -/
def hasDecimals : Document → Bool
  | int n => Radix.hasDecimal n
  | list items => hasDecimalsItems items
  | object entries => hasDecimalsEntries entries
  | _ => true

/-- Whether every whole number in a list of values has a decimal text. -/
def hasDecimalsItems : List Document → Bool
  | [] => true
  | item :: rest => hasDecimals item && hasDecimalsItems rest

/-- Whether every whole number in the entries of an object has a decimal text. -/
def hasDecimalsEntries : List (String × Document) → Bool
  | [] => true
  | (_, value) :: rest => hasDecimals value && hasDecimalsEntries rest

end

end Retarget.Document
