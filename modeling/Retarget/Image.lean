import Retarget.Attempt
import Retarget.Bits
import Retarget.Hex

/-!
# Images

An image holds words from an origin on.  It grows with zeros as far as it is written and as there is
room, reads as zero beyond its end, and every word written is cut to the width of the image.
-/

namespace Retarget

variable [Machine]

/-- The word at a place of a row, which is zero beyond the end. -/
def Words.get (words : Array Nat) (i : Nat) : Nat :=
  words[i]?.getD 0

/-- Words from the address `origin` on, each of `width` bits. -/
structure Image where
  width : Int := 8
  origin : Int := 0
  words : Array Nat := #[]
  deriving DecidableEq, Repr

/-- The low `width` bits of a number. -/
def lowBits (width : Int) (value : Int) : Except Fault Nat := do
  .ok (Bits.low (← Capacity.fieldBits width) value)

/-- The number of words of `width` bits that hold `nbits` bits. -/
def wordCount (nbits width : Int) : Except Fault Int :=
  if width = 0 then .error .zeroDivision else .ok (-(Int.fdiv (-nbits) width))

/-- The word at place `k` of a number cut into `count` words of `width` bits, the most significant
first. -/
def wordAt (width count : Nat) (value : Int) (k : Nat) : Nat :=
  Bits.low width (Bits.drop ((count - 1 - k) * width) value)

/-- A number cut into `count` words of `width` bits, the most significant first. -/
def splitWords (width count : Nat) (value : Int) : List Nat :=
  (List.range count).map (wordAt width count value)

namespace Image

/-! ## Places -/

/-- The place of an address. -/
def index (image : Image) (address : Int) : Except Fault Nat :=
  if address < image.origin then
    .error (Fault.showing [address, image.origin] (.belowOrigin address image.origin))
  else .ok (address - image.origin).toNat

/-- The largest word of the image. -/
def mask (image : Image) : Except Fault Int := do
  .ok ((← Capacity.shiftUp 1 image.width) - 1)

/-- The word at an address. -/
def read (image : Image) (address : Int) : Except Fault Nat :=
  (image.index address).map (Words.get image.words)

/-- The word at a place, counted from the end if it is negative. -/
def item (image : Image) (i : Int) : Except Fault Nat :=
  (Capacity.placeOf image.words.size i).map (Words.get image.words)

/-! ## Changes -/

/-- Makes the image at least `length` words long. -/
def pad (image : Image) (length : Int) : Except Fault Image := do
  Capacity.checkGrowth image.words.size length.toNat
  .ok { image with
    words := image.words ++ Array.replicate (length.toNat - image.words.size) 0 }

/-- Writes the word that `change` makes of the old one, cut to the width.  The image grows before
the word is cut. -/
def modifyAt (address : Int) (change : Nat → Except Fault Nat) : Attempt Image Unit :=
  fun image =>
    match image.index address with
    | .error fault => (.error fault, image)
    | .ok i =>
      match image.pad (i + 1) with
      | .error fault => (.error fault, image)
      | .ok grown =>
        match change (Words.get image.words i) with
        | .error fault => (.error fault, grown)
        | .ok word => (.ok (), { grown with words := grown.words.setIfInBounds i word })

/-- Writes a word. -/
def put (address value : Int) : Attempt Image Unit := fun image =>
  modifyAt address (fun _ => lowBits image.width value) image

/-- Flips the bits of a word that are set in `value`. -/
def flip (address value : Int) : Attempt Image Unit := fun image =>
  modifyAt address (fun old => do
    let kept ← lowBits image.width old
    let flipped ← lowBits image.width value
    .ok (kept ^^^ flipped)) image

/-! ## Texts and bytes -/

/-- The words from an address on in hexadecimal. -/
def render (image : Image) (address count : Int) : Except Fault String :=
  if count ≤ 0 then .ok ""
  else do
    let first ← image.index address
    let fields ← Hex.wordFields image.width ((List.range count.toNat).map fun j =>
      Words.get image.words (first + j))
    Capacity.holdText (" ".intercalate fields)

end Image

/-- The bytes of a word of `count` bytes, the most significant first. -/
def wordBytes (count word : Nat) : List UInt8 :=
  (splitWords 8 count word).map UInt8.ofNat

/-- Words as bytes, each word in as many whole bytes as its width needs. -/
def packWords (words : List Int) (width : Int) : Except Fault (List UInt8) := do
  let count := max 1 (-((-width) / 8)).toNat
  let cut ← words.mapM (lowBits width)
  Capacity.checkText (cut.length * count)
  .ok (cut.flatMap (wordBytes count))

end Retarget
