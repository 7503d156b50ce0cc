/-!
# Lines

A text is cut into lines at every line break of any script; a break at the end does not open another
line.  Text read from a file has its line ends unified first.
-/

namespace Retarget.Text

/-- A character that ends a line. -/
def isLineBreak (c : Char) : Bool :=
  let n := c.toNat
  decide ((10 ≤ n ∧ n ≤ 13) ∨ (28 ≤ n ∧ n ≤ 30) ∨ n = 0x85 ∨ n = 0x2028 ∨ n = 0x2029)

/-- The lines of a text; a carriage return and the line feed after it are one break. -/
def linesOf : List Char → List (List Char)
  | [] => []
  | '\r' :: '\n' :: rest => [] :: linesOf rest
  | c :: rest =>
    if isLineBreak c then [] :: linesOf rest
    else match linesOf rest with
      | [] => [[c]]
      | line :: more => (c :: line) :: more

/-- The lines of a text. -/
def lines (s : String) : List String :=
  (linesOf s.toList).map String.ofList

/-- Writes every line end as a single line feed. -/
def unifyLineEnds : List Char → List Char
  | [] => []
  | '\r' :: '\n' :: rest => '\n' :: unifyLineEnds rest
  | c :: rest => (if c == '\r' then '\n' else c) :: unifyLineEnds rest

/-- The empty text has no line. -/
@[simp] theorem lines_empty : lines "" = [] := rfl

end Retarget.Text
