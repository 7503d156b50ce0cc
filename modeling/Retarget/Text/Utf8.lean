import Retarget.Radix
import Retarget.Text.Lines

/-!
# Text from bytes

Strict decoding of UTF-8: the first sequence of bytes that is not a character is refused with its
place and the reason.
-/

namespace Retarget.Text

/-- Why a sequence of bytes is not a character. -/
inductive BadBytes where
  | start
  | continuation
  | truncated
  deriving DecidableEq, Repr

/-- A refusal of bytes `position` to `position + count - 1`, the first of which is `byte`. -/
structure DecodeError where
  position : Nat
  count : Nat
  byte : Nat
  reason : BadBytes
  deriving DecidableEq, Repr

/-- The words for a reason. -/
def BadBytes.message : BadBytes → String
  | start => "invalid start byte"
  | continuation => "invalid continuation byte"
  | truncated => "unexpected end of data"

/-- The words for a refusal. -/
def DecodeError.message (e : DecodeError) : String :=
  let place :=
    if e.count = 1 then
      "byte 0x" ++ String.ofList [Nat.digitChar (e.byte / 16), Nat.digitChar (e.byte % 16)] ++
        " in position " ++ Radix.decimal e.position
    else
      "bytes in position " ++ Radix.decimal e.position ++ "-" ++
        Radix.decimal (e.position + e.count - 1 : Nat)
  "'utf-8' codec can't decode " ++ place ++ ": " ++ e.reason.message

/-- A byte that continues a character. -/
def continues (b : Nat) : Bool := decide (0x80 ≤ b ∧ b < 0xc0)

/-- Whether `b` may follow the first byte `a`: a sequence is neither longer than needed, nor half of
a pair, nor above the last code point. -/
def follows (a b : Nat) : Bool :=
  continues b &&
    !((a == 0xe0 && b < 0xa0) || (a == 0xed && 0xa0 ≤ b) || (a == 0xf0 && b < 0x90) ||
      (a == 0xf4 && 0x90 ≤ b))

/-- The number of bytes of a character by its first byte. -/
def sequenceLength? (a : Nat) : Option Nat :=
  if a < 0x80 then some 1
  else if a < 0xc2 then none
  else if a < 0xe0 then some 2
  else if a < 0xf0 then some 3
  else if a < 0xf5 then some 4
  else none

/-- The payload of a first byte in a sequence of `length` bytes. -/
def leadBits (length a : Nat) : Nat :=
  match length with
  | 2 => a % 32
  | 3 => a % 16
  | 4 => a % 8
  | _ => a

/-- The character in front and the number of its bytes, or how many bytes are refused and why. -/
def front (a : Nat) (more : List Nat) : Except (Nat × BadBytes) (Char × Nat) :=
  match sequenceLength? a with
  | none => .error (1, .start)
  | some length =>
    let tail := more.take (length - 1)
    -- the continuation bytes that are as they should be
    let good := match tail with
      | [] => 0
      | b :: rest => if follows a b then 1 + (rest.takeWhile continues).length else 0
    if good = length - 1 then
      .ok (Char.ofNat (tail.foldl (fun acc b => acc * 64 + b % 64) (leadBits length a)), length)
    else if good = tail.length then .error (1 + good, .truncated)
    else .error (1 + good, .continuation)

/-- The characters of the bytes from `position` on, of which the first `skip` belong to a character
already read. -/
def decodeFrom (position : Nat) : (skip : Nat) → List Nat → Except DecodeError (List Char)
  | _, [] => .ok []
  | skip + 1, _ :: rest => decodeFrom (position + 1) skip rest
  | 0, a :: rest =>
    match front a rest with
    | .error (count, reason) => .error ⟨position, count, a, reason⟩
    | .ok (c, length) => (decodeFrom (position + 1) (length - 1) rest).map (c :: ·)

/-- The text of a file: its bytes as UTF-8 with every line end as a line feed. -/
def ofFile (bytes : List UInt8) : Except DecodeError String :=
  (decodeFrom 0 0 (bytes.map UInt8.toNat)).map fun s => String.ofList (unifyLineEnds s)

end Retarget.Text
