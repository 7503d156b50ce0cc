import Retarget.Radix
import Retarget.Text.Blank
import Retarget.Text.Case
import Retarget.Text.Word

/-!
# Formats

The format of a rule is cut into segments: letters, gaps and operands.  A line has the format if it
can be cut into parts, one for each segment, where a letter stands for itself in either case, a gap
for one or more blanks, and an operand for a word or a number.  Of several ways to cut a line,
`captures` takes the first in the order of preference: longer parts before shorter ones.
-/

namespace Retarget

namespace Format

/-! ## Pieces and segments -/

/-- A piece of a written format: a character, or a slot, which is a tilde and the name of a
variable. -/
inductive Piece where
  | char (c : Char)
  | slot (name : String)
  deriving DecidableEq, Repr

/-- Dropping does not make a list longer. -/
theorem length_dropWhile_le (p : Char → Bool) (s : List Char) :
    (s.dropWhile p).length ≤ s.length :=
  (List.dropWhile_sublist p).length_le

/-- The pieces of a format; a tilde that no name follows is a character of its own. -/
def pieces : List Char → List Piece
  | [] => []
  | c :: rest =>
    if c == '~' && !(rest.takeWhile Text.isWord).isEmpty then
      .slot (String.ofList (rest.takeWhile Text.isWord)) :: pieces (rest.dropWhile Text.isWord)
    else .char c :: pieces rest
termination_by s => s.length
decreasing_by
  · exact Nat.lt_succ_of_le (length_dropWhile_le _ _)
  · exact Nat.lt_succ_self _

/-- The names of the slots among the pieces, in order. -/
def slotNames (ps : List Piece) : List String :=
  ps.filterMap fun
    | .slot name => some name
    | .char _ => none

/-- What an operand may be. -/
inductive Operand where
  /-- A word. -/
  | token
  /-- Digits, a dollar sign and hexadecimal digits, or a word. -/
  | number
  deriving DecidableEq, Repr

/-- A segment of a format. -/
inductive Segment where
  | letter (c : Char)
  | gap
  | operand (kind : Operand)
  deriving DecidableEq, Repr

/-- Puts a character in front of segments; neighbouring blanks are one gap. -/
def consChar (c : Char) (segments : List Segment) : List Segment :=
  if Text.isBlank c then
    match segments with
    | .gap :: _ => segments
    | _ => .gap :: segments
  else .letter c :: segments

/-- The segments of a list of pieces, of which `kindOf` gives the kind of each slot. -/
def segments (kindOf : String → Operand) : List Piece → List Segment
  | [] => []
  | .char c :: rest => consChar c (segments kindOf rest)
  | .slot name :: rest => .operand (kindOf name) :: segments kindOf rest

/-! ## Matching -/

/-- The numbers `n`, `n - 1`, …, `1`. -/
def countdown : Nat → List Nat
  | 0 => []
  | n + 1 => (n + 1) :: countdown n

/-- A number is counted down to if it is positive and not above the start. -/
theorem mem_countdown {n k : Nat} : k ∈ countdown n ↔ 1 ≤ k ∧ k ≤ n := by
  induction n with
  | zero => simp [countdown]; omega
  | succ n ih => simp only [countdown, List.mem_cons, ih]; omega

/-- The lengths of the words in front of a text, longest first. -/
def wordLengths (s : List Char) : List Nat :=
  countdown (s.takeWhile Text.isWord).length

/-- The lengths of the decimal numbers in front of a text, longest first. -/
def decimalLengths (s : List Char) : List Nat :=
  countdown (s.takeWhile Radix.isDecimalDigit).length

/-- The lengths of the hexadecimal numbers with their dollar sign in front of a text, longest
first. -/
def hexLengths (s : List Char) : List Nat :=
  match s with
  | '$' :: digits => (countdown (digits.takeWhile Radix.isHexDigit).length).map (· + 1)
  | _ => []

/-- The lengths that an operand may have at the front of a text, in order of preference. -/
def Operand.lengths (kind : Operand) (s : List Char) : List Nat :=
  match kind with
  | token => wordLengths s
  | number => decimalLengths s ++ hexLengths s ++ wordLengths s

/-- The operands of a line that has the format, in order; a line break at its end does not count. -/
def captures : List Segment → List Char → Option (List (List Char))
  | [], s => if s = [] ∨ s = ['\n'] then some [] else none
  | .letter c :: rest, s =>
    match s with
    | [] => none
    | x :: more => if Text.sameLetter c x then captures rest more else none
  | .gap :: rest, s =>
    (countdown (s.takeWhile Text.isBlank).length).findSome? fun n => captures rest (s.drop n)
  | .operand kind :: rest, s =>
    (kind.lengths s).findSome? fun n => (captures rest (s.drop n)).map (s.take n :: ·)

/-! ## The pattern text -/

/-- The characters that a pattern writes after a backslash. -/
def patternMarks : List Char :=
  "()[]\x7b\x7d?*+-|^$\\.&~#".toList

/-- The pattern text of a segment. -/
def Segment.pattern : Segment → List Char
  | letter c => if patternMarks.contains c then ['\\', c] else [c]
  | gap => "\\s+".toList
  | operand .token => "(\\w+)".toList
  | operand .number => "([0-9]+|[$][0-9a-f]+|\\w+)".toList

/-- The pattern text of a format: its segments between the marks for the two ends of a line. -/
def pattern (segments : List Segment) : String :=
  String.ofList (['^'] ++ segments.flatMap Segment.pattern ++ ['$'])

end Format

end Retarget
