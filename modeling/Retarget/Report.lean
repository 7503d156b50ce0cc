import Retarget.Assembler.Program
import Retarget.Table

/-!
# Reports

The forms in which a finished program is written: words in hexadecimal, bytes, a document, and a
listing of its lines.
-/

namespace Retarget

variable [Machine]

/-- A form of output. -/
inductive OutputFormat where
  | hex
  | bin
  | json
  | listing
  deriving DecidableEq, Repr

namespace OutputFormat

/-- The forms by their words. -/
def table : List (String × OutputFormat) :=
  [("hex", hex), ("bin", bin), ("json", json), ("listing", listing)]

end OutputFormat

/-! ## Documents -/

namespace Fixup

/-- A fixup as a document. -/
def toDocument (fix : Fixup) : Document :=
  .object [("sym", .text fix.sym), ("ofs", .int fix.ofs), ("bitlen", .int fix.bitlen),
    ("bitofs", .int fix.bitofs), ("line", .int fix.line), ("iprel", .bool fix.iprel),
    ("ipofs", .int fix.ipofs)]

end Fixup

namespace Record

/-- A record as a document. -/
def toDocument (record : Record) : Document :=
  .object [("line", .int record.line), ("offset", .int record.offset), ("nbits", .int record.nbits),
    ("insns", .text record.text)]

end Record

namespace Diagnostic

/-- A diagnostic as a document. -/
def toDocument (d : Diagnostic) : Document :=
  .object [("msg", .text d.message), ("line", .int d.line)]

end Diagnostic

namespace Assembler

/-- The state of an assembler as a document. -/
def toDocument (a : Assembler) : Document :=
  .object [("ip", .int a.ip), ("line", .int a.line), ("origin", .int a.origin),
    ("codelen", .int a.codelen),
    ("output", .list (a.image.words.toList.map fun (word : Nat) => .int word)),
    ("lines", .list (a.records.toList.map Record.toDocument)),
    ("errors", .list (a.diagnostics.toList.map Diagnostic.toDocument)),
    ("fixups", .list (a.fixups.toList.map Fixup.toDocument))]

end Assembler

/-! ## Texts -/

namespace Report

/-- The words in hexadecimal, one a line. -/
def hexLines (a : Assembler) : Except Fault String := do
  let fields ← Hex.wordFields a.width a.image.words.toList
  Capacity.holdText (String.join (fields.map (· ++ "\n")))

/-- The row of a record in a listing of words of `width` bits. -/
def listingRow (width : Int) (record : Record) : Except Fault (List String) := do
  let address ← Hex.field record.offset (max 4 (Literal.hexDigits width))
  if [record.line, record.nbits].all Radix.hasDecimal then
    .ok [Radix.decimal record.line, address, Radix.decimal record.nbits, record.text]
  else .error .decimalTooLong

/-- The headers of a listing. -/
def listingHeaders : List String := ["line", "addr", "bits", "words"]

/-- A listing of the lines of a program, set as a table by `write`. -/
def listingBy (write : Table.Writer) (a : Assembler) : Except Fault String := do
  let rows ← a.records.toList.mapM (listingRow a.width)
  Capacity.holdText ("\n".intercalate (write listingHeaders rows) ++ "\n")

/-- A listing of the lines of a program. -/
def listing (a : Assembler) : Except Fault String :=
  listingBy Table.lines a

/-- A finished program as an indented document. -/
def document (a : Assembler) : Except Fault String :=
  if a.toDocument.hasDecimals then .ok (a.toDocument.indented ++ "\n") else .error .decimalTooLong

/-- The bytes of a finished program. -/
def bytes (a : Assembler) : Except Fault (List UInt8) :=
  packWords (a.image.words.toList.map fun (word : Nat) => (word : Int)) a.width

/-- The text of a finished program; bytes have none. -/
def text (format : OutputFormat) (a : Assembler) : Except Fault String :=
  match format with
  | .hex => hexLines a
  | .json => document a
  | .listing => listing a
  | .bin => .error .binaryNeedsFile

/-- What is written to a file. -/
def content (format : OutputFormat) (a : Assembler) : Except Fault (List UInt8) :=
  match format with
  | .bin => bytes a
  | other => (text other a).map fun s => s.toUTF8.toList

end Report

end Retarget
