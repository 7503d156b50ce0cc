import Retarget.Text.Printable

/-!
# Quoted texts

How a text is shown inside a message: between single quotes, or between double quotes when it holds
a single quote and no double one, with a backslash escape for whatever is not printable.
-/

namespace Retarget.Text

/-- The last `count` hexadecimal digits of `n`, in lower case. -/
def hexEscape (count n : Nat) : List Char :=
  match count with
  | 0 => []
  | k + 1 => hexEscape k (n / 16) ++ [Nat.digitChar (n % 16)]

/-- One character of a text that stands between `quote` marks. -/
def escapeChar (quote c : Char) : List Char :=
  if c == quote || c == '\\' then ['\\', c]
  else if c == '\n' then ['\\', 'n']
  else if c == '\r' then ['\\', 'r']
  else if c == '\t' then ['\\', 't']
  else if isPrintable c then [c]
  else if c.toNat < 0x100 then '\\' :: 'x' :: hexEscape 2 c.toNat
  else if c.toNat < 0x10000 then '\\' :: 'u' :: hexEscape 4 c.toNat
  else '\\' :: 'U' :: hexEscape 8 c.toNat

/-- The mark that a text is put between. -/
def quoteMark (s : List Char) : Char :=
  if s.contains '\x27' && !s.contains '"' then '"' else '\x27'

/-- A text between quotes. -/
def quoted (s : String) : String :=
  let mark := quoteMark s.toList
  String.ofList ([mark] ++ s.toList.flatMap (escapeChar mark) ++ [mark])

end Retarget.Text
