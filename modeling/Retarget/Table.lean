import Retarget.Decimal.Shortest
import Retarget.Radix

/-!
# Tables

A table with a header, in columns separated by bars.  A column whose cells are all numbers is set to
the right and on the decimal point; if one of them is not a whole number, all are written as reals
of six digits.  Other columns are set to the left.
-/

namespace Retarget.Table

/-- A way to write a table: the lines of it, for its headers and its rows. -/
abbrev Writer := List String → List (List String) → List String

/-! ## Numbers in cells -/

/-- Whether a cell has a minus sign, and what follows it. -/
def signed : List Char → Bool × List Char
  | '-' :: body => (true, body)
  | body => (false, body)

/-- Whether a cell is a whole number that can be read. -/
def isWhole (cell : List Char) : Bool :=
  let digits := (signed cell).2
  !digits.isEmpty && digits.all Radix.isDecimalDigit && digits.length ≤ Radix.decimalLimit

/-- The digits and the power of ten that a text without a sign spells, in decimal or scientific
notation. -/
def scientific? (body : List Char) : Option (Nat × Nat) :=
  let whole := body.takeWhile Radix.isDecimalDigit
  if whole.isEmpty then none
  else match body.dropWhile Radix.isDecimalDigit with
    | [] => some (Radix.read 10 whole, 0)
    | mark :: power =>
      if (mark == 'E' || mark == 'e') && !power.isEmpty && power.all Radix.isDecimalDigit then
        some (Radix.read 10 whole, Radix.read 10 power)
      else none

/-- The real that a cell spells. -/
def real? (cell : List Char) : Option Decimal.Parts :=
  (scientific? (signed cell).2).map fun (digits, power) =>
    Decimal.nearest (signed cell).1 digits power

/-- Whether a cell is a number, which an infinite one is not. -/
def isNumber (cell : List Char) : Bool :=
  match real? cell with
  | some (.finite ..) => true
  | _ => false

/-! ## Columns -/

/-- How a column is set. -/
inductive Kind where
  | whole
  | real
  | text
  deriving DecidableEq, Repr

/-- How a column is set: by its cells that are not empty, and as text if there are none. -/
def kindOf (cells : List (List Char)) : Kind :=
  let filled := cells.filter fun cell => !cell.isEmpty
  if filled.isEmpty then .text
  else if filled.all isWhole then .whole
  else if filled.all fun cell => isWhole cell || isNumber cell then .real
  else .text

/-- A cell of a column of reals; an empty one stays empty. -/
def realCell (cell : List Char) : List Char :=
  match real? cell with
  | some x => (Decimal.briefText x).toList
  | none => cell

/-- The number of characters after a mark, if it is there. -/
def afterLast (mark : Char) (cell : List Char) : Option Nat :=
  let after := (cell.reverse.takeWhile (· != mark)).length
  if after < cell.length then some after else none

/-- The number of characters after the point of a number, or else after its exponent mark; a number
without either has none, not even the point. -/
def afterPoint (cell : List Char) : Option Nat :=
  if isWhole cell then none else afterLast '.' cell <|> afterLast 'e' cell

/-- The number of columns that the fraction of a cell takes, its point included. -/
def fractionWidth (cell : List Char) : Nat :=
  match afterPoint cell with
  | none => 0
  | some n => n + 1

/-- Sets numbers on the decimal point. -/
def alignPoints (cells : List (List Char)) : List (List Char) :=
  let widest := (cells.map fractionWidth).foldl max 0
  cells.map fun cell => cell ++ List.replicate (widest - fractionWidth cell) ' '

/-- Fills a cell up to a width, at its end or in front. -/
def fill (kind : Kind) (width : Nat) (cell : List Char) : List Char :=
  let gap := List.replicate (width - cell.length) ' '
  match kind with
  | .text => cell ++ gap
  | _ => gap ++ cell

/-- A column that is set: its width, its header and its cells. -/
structure Column where
  width : Nat
  header : List Char
  cells : List (List Char)

/-- Sets a column; it is at least two characters wider than its header. -/
def setColumn (header : String) (cells : List (List Char)) : Column :=
  let kind := kindOf cells
  let written := match kind with
    | .text => cells
    | .whole => alignPoints cells
    | .real => alignPoints (cells.map realCell)
  let width := (written.map List.length).foldl max (header.length + 2)
  ⟨width, fill kind width header.toList, written.map (fill kind width)⟩

/-! ## Rows -/

/-- A row of cells between bars. -/
def row (cells : List (List Char)) : List Char :=
  ['|', ' '] ++ [' ', '|', ' '].intercalate cells ++ [' ', '|']

/-- The line under the header. -/
def rule (columns : List Column) : List Char :=
  ['|'] ++
    ['|'].intercalate (columns.map fun column => List.replicate (column.width + 2) '-') ++ ['|']

/-- The cells at a place of every column. -/
def cellsAt (columns : List Column) (i : Nat) : List (List Char) :=
  columns.map fun column => column.cells[i]?.getD []

/-- The lines of a table. -/
def lines (headers : List String) (rows : List (List String)) : List String :=
  let columns := headers.mapIdx fun j header =>
    setColumn header (rows.map fun cells => (cells[j]?.getD "").toList)
  let body := (List.range rows.length).map fun i => row (cellsAt columns i)
  ((row (columns.map Column.header)) :: rule columns :: body).map String.ofList

end Retarget.Table
