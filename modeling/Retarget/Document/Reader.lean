import Retarget.Decimal.Shortest
import Retarget.Document
import Retarget.Radix

/-!
# Reading documents

The reader of the data format.  A text that is not a document is refused with what was expected and
where: the position counts characters from zero, lines and columns from one.  Lists and objects may
be nested only so deep, and an escape that is half of a pair stands for no character.
-/

namespace Retarget.Document

/-! ## Refusals -/

/-- What is wrong with a text at a position. -/
inductive Malformed where
  | byteOrderMark
  | value
  | name
  | colon
  | comma
  | extra
  | unterminated
  | control
  | escape
  | unicodeEscape
  deriving DecidableEq, Repr

/-- The words for what is wrong. -/
def Malformed.message : Malformed → String
  | byteOrderMark => "Unexpected UTF-8 BOM (decode using utf-8-sig)"
  | value => "Expecting value"
  | name => "Expecting property name enclosed in double quotes"
  | colon => "Expecting ':' delimiter"
  | comma => "Expecting ',' delimiter"
  | extra => "Extra data"
  | unterminated => "Unterminated string starting at"
  | control => "Invalid control character at"
  | escape => "Invalid \\escape"
  | unicodeEscape => "Invalid \\uXXXX escape"

/-- A value that holds values. -/
inductive Container where
  | list
  | object
  deriving DecidableEq, Repr

/-- The word for a container in messages. -/
def Container.word : Container → String
  | list => "array"
  | object => "object"

/-- Why a text is not read. -/
inductive ReadError where
  /-- It does not follow the grammar. -/
  | malformed (what : Malformed) (line column position : Nat)
  /-- A whole number has too many digits. -/
  | tooLong (digits : Nat)
  /-- A list or an object is nested too deeply. -/
  | tooDeep (inside : Container)
  /-- An escape is half of a pair, and the other half is missing. -/
  | unpaired
  deriving DecidableEq, Repr

/-! ## Positions -/

/-- The line of the position after the characters `before`. -/
def lineOf (before : List Char) : Nat :=
  before.count '\n' + 1

/-- The column of the position after the characters `before`. -/
def columnOf (before : List Char) : Nat :=
  (before.reverse.takeWhile (· != '\n')).length + 1

/-- A refusal inside the grammar, before its position is turned into line and column. -/
inductive Stop where
  | malformed (what : Malformed) (position : Nat)
  | tooLong (digits : Nat)
  | tooDeep (inside : Container)
  | unpaired

/-- What is left of a text, and the position at which it starts. -/
structure Cursor where
  position : Nat
  rest : List Char

namespace Cursor

/-- Moves over `n` characters. -/
def advance (c : Cursor) (n : Nat) : Cursor :=
  ⟨c.position + n, c.rest.drop n⟩

/-- The characters that stand between the parts of a document. -/
def isSpace (c : Char) : Bool :=
  c == ' ' || c == '\t' || c == '\n' || c == '\r'

/-- Moves over the characters that satisfy `p`. -/
def skipWhile (p : Char → Bool) (c : Cursor) : Cursor :=
  c.advance (c.rest.takeWhile p).length

/-- Moves over the space in front. -/
def skipSpace (c : Cursor) : Cursor :=
  c.skipWhile isSpace

/-- Whether the next character is `x`. -/
def atChar (c : Cursor) (x : Char) : Bool :=
  c.rest.head? == some x

/-- A refusal at this position. -/
def refuse {α : Type} (c : Cursor) (what : Malformed) : Except Stop α :=
  .error (.malformed what c.position)

end Cursor

/-! ## Texts -/

/-- The number that four hexadecimal digits in front stand for. -/
def fourDigits? (s : List Char) : Option Nat :=
  let four := s.take 4
  if four.length = 4 ∧ four.all Radix.isHexDigit then some (Radix.read 16 four) else none

/-- A code unit that opens a pair. -/
def opensPair (n : Nat) : Bool := decide (0xd800 ≤ n ∧ n < 0xdc00)

/-- A code unit that closes a pair. -/
def closesPair (n : Nat) : Bool := decide (0xdc00 ≤ n ∧ n < 0xe000)

/-- The character of a code unit that stands for itself; half of a pair stands for none. -/
def unitChar (n : Nat) : Except Stop Char :=
  if opensPair n || closesPair n then .error .unpaired else .ok (Char.ofNat n)

/-- Reads a unicode escape, of which the `u` is the next character; more text must follow it. -/
def unicodeEscape (c : Cursor) : Except Stop (Char × Cursor) :=
  let digits := c.rest.drop 1
  match fourDigits? digits with
  | none => c.refuse .unicodeEscape
  | some high =>
    let after := c.advance 5
    if after.rest.isEmpty then c.refuse .unicodeEscape
    else if opensPair high && after.rest.take 2 == ['\\', 'u'] && 6 < after.rest.length then
      match fourDigits? (after.rest.drop 2) with
      | none => (after.advance 1).refuse .unicodeEscape
      | some low =>
        if closesPair low then
          .ok (Char.ofNat (0x10000 + (high - 0xd800) * 0x400 + (low - 0xdc00)), after.advance 6)
        else (unitChar high).map (·, after)
    else (unitChar high).map (·, after)

/-- The character that a backslash and the letter `c` stand for. -/
def simpleEscape? (c : Char) : Option Char :=
  match c with
  | '"' => some '"'
  | '\\' => some '\\'
  | '/' => some '/'
  | 'b' => some (Char.ofNat 8)
  | 'f' => some (Char.ofNat 12)
  | 'n' => some '\n'
  | 'r' => some '\r'
  | 't' => some '\t'
  | _ => none

/-- Reads a text to its closing quote; `start` is the position of the opening one and `acc` holds
the characters so far, last first. -/
def readText (start : Nat) : (fuel : Nat) → Cursor → List Char → Except Stop (String × Cursor)
  | 0, _, _ => .error (.malformed .unterminated start)
  | fuel + 1, c, acc =>
    match c.rest with
    | [] => .error (.malformed .unterminated start)
    | '"' :: _ => .ok (String.ofList acc.reverse, c.advance 1)
    | '\\' :: [] => .error (.malformed .unterminated start)
    | '\\' :: 'u' :: _ => do
      let (x, after) ← unicodeEscape (c.advance 1)
      readText start fuel after (x :: acc)
    | '\\' :: letter :: _ =>
      match simpleEscape? letter with
      | some x => readText start fuel (c.advance 2) (x :: acc)
      | none => c.refuse .escape
    | x :: _ =>
      if x.toNat < 32 then c.refuse .control
      else readText start fuel (c.advance 1) (x :: acc)

/-! ## Numbers -/

/-- The fraction part in front, without its point: a point and at least one digit. -/
def fractionDigits (s : List Char) : List Char :=
  match s with
  | '.' :: more => more.takeWhile Radix.isDecimalDigit
  | _ => []

/-- The exponent part in front: its number of characters, sign and digits. -/
def exponentPart? (s : List Char) : Option (Nat × Bool × List Char) :=
  let signed (negative : Bool) (length : Nat) (more : List Char) :=
    let ds := more.takeWhile Radix.isDecimalDigit
    if ds.isEmpty then none else some (length + ds.length, negative, ds)
  match s with
  | e :: more =>
    if e == 'e' || e == 'E' then
      match more with
      | '-' :: more => signed true 2 more
      | '+' :: more => signed false 2 more
      | _ => signed false 1 more
    else none
  | [] => none

/-- Reads a number.  A zero in front is a number of its own, and a point or an exponent without
digits does not belong to the number. -/
def readNumber (c : Cursor) : Except Stop (Document × Cursor) :=
  let negative := c.atChar '-'
  let body := if negative then c.rest.drop 1 else c.rest
  let whole := match body with
    | '0' :: _ => ['0']
    | _ => body.takeWhile Radix.isDecimalDigit
  if whole.isEmpty then c.refuse .value
  else
    let signLength := if negative then 1 else 0
    let afterWhole := body.drop whole.length
    let fraction := fractionDigits afterWhole
    let pointLength := if fraction.isEmpty then 0 else fraction.length + 1
    let afterFraction := afterWhole.drop pointLength
    match exponentPart? afterFraction, fraction.isEmpty with
    | none, true =>
      if Radix.decimalLimit < whole.length then .error (.tooLong whole.length)
      else
        let n : Int := Radix.read 10 whole
        .ok (.int (if negative then -n else n), c.advance (signLength + whole.length))
    | exponent?, _ =>
      let (length, down, ds) := exponent?.getD (0, false, [])
      let e : Int := Radix.read 10 ds
      let x := Decimal.toFloat (Radix.read 10 (whole ++ fraction))
        ((if down then -e else e) - fraction.length)
      .ok (.real (if negative then -x else x),
        c.advance (signLength + whole.length + pointLength + length))

/-! ## Values -/

/-- The words that stand for a value. -/
def constants : List (String × Document) := [
  ("null", .null), ("true", .bool true), ("false", .bool false), ("NaN", .real (0.0 / 0.0)),
  ("Infinity", .real (1.0 / 0.0)), ("-Infinity", .real (-1.0 / 0.0))]

/-- The word in front that stands for a value. -/
def constant? (c : Cursor) : Option (Document × Cursor) :=
  constants.findSome? fun (word, value) =>
    if word.toList.isPrefixOf c.rest then some (value, c.advance word.length) else none

mutual

/-- Reads a value, of which the first character is the next one; lists and objects in it may be
nested `depth` deep. -/
def readValue : (fuel depth : Nat) → Cursor → Except Stop (Document × Cursor)
  | 0, _, c => c.refuse .value
  | fuel + 1, depth, c =>
    match c.rest, depth with
    | '"' :: _, _ => do
      let (s, after) ← readText c.position (c.rest.length + 1) (c.advance 1) []
      .ok (.text s, after)
    | '[' :: _, 0 => .error (.tooDeep .list)
    | '[' :: _, depth + 1 =>
      let inside := (c.advance 1).skipSpace
      if inside.atChar ']' then .ok (.list [], inside.advance 1)
      else readItems fuel depth inside []
    | '\x7b' :: _, 0 => .error (.tooDeep .object)
    | '\x7b' :: _, depth + 1 =>
      let inside := (c.advance 1).skipSpace
      if inside.atChar '\x7d' then .ok (.object [], inside.advance 1)
      else readEntries fuel depth inside []
    | _, _ =>
      match constant? c with
      | some found => .ok found
      | none => readNumber c

/-- Reads the items of a list after those in `acc`, last first, to the closing bracket. -/
def readItems : (fuel depth : Nat) → Cursor → List Document → Except Stop (Document × Cursor)
  | 0, _, c, _ => c.refuse .value
  | fuel + 1, depth, c, acc => do
    let (item, after) ← readValue fuel depth c
    let next := after.skipSpace
    if next.atChar ']' then .ok (.list (item :: acc).reverse, next.advance 1)
    else if next.atChar ',' then readItems fuel depth (next.advance 1).skipSpace (item :: acc)
    else next.refuse .comma

/-- Reads the entries of an object after those in `acc` to the closing brace; of two entries with
one name the later one counts. -/
def readEntries : (fuel depth : Nat) → Cursor → List (String × Document) →
    Except Stop (Document × Cursor)
  | 0, _, c, _ => c.refuse .value
  | fuel + 1, depth, c, acc =>
    if c.atChar '"' then do
      let (name, afterName) ← readText c.position (c.rest.length + 1) (c.advance 1) []
      let colon := afterName.skipSpace
      if colon.atChar ':' then
        let (value, after) ← readValue fuel depth (colon.advance 1).skipSpace
        let entries := Bindings.bind acc name value
        let next := after.skipSpace
        if next.atChar '\x7d' then .ok (.object entries, next.advance 1)
        else if next.atChar ',' then readEntries fuel depth (next.advance 1).skipSpace entries
        else next.refuse .comma
      else colon.refuse .colon
    else c.refuse .name

end

/-- Reads a text that holds one value and space around it. -/
def readAll (depth : Nat) (s : List Char) : Except Stop Document :=
  let start : Cursor := ⟨0, s⟩
  if start.atChar '\ufeff' then start.refuse .byteOrderMark
  else do
    let (value, after) ← readValue (2 * s.length + 2) depth start.skipSpace
    let final := after.skipSpace
    if final.rest.isEmpty then .ok value else final.refuse .extra

/-- Reads a document in which lists and objects may be nested `depth` deep. -/
def parse (depth : Nat) (s : String) : Except ReadError Document :=
  match readAll depth s.toList with
  | .ok value => .ok value
  | .error (.tooLong digits) => .error (.tooLong digits)
  | .error (.tooDeep inside) => .error (.tooDeep inside)
  | .error .unpaired => .error .unpaired
  | .error (.malformed what position) =>
    let before := s.toList.take position
    .error (.malformed what (lineOf before) (columnOf before) position)

end Retarget.Document
