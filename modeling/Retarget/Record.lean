import Retarget.Diagnostic
import Retarget.Image

/-!
# Line records

A record says what a line put into the image: where, and how many bits.  Once all words are final,
`renderAll` gives each record its words as text; a record in front of the origin keeps none.
-/

namespace Retarget

variable [Machine]

/-- What a line put into the image. -/
structure Record where
  line : Int
  offset : Int
  nbits : Int
  text : String := ""
  deriving DecidableEq, Repr

namespace Record

/-- The words that a record takes in an image, or what is told of a record in front of it.  Nothing
is told unless `tell`. -/
def render (image : Image) (tell : Bool) (record : Record) :
    Except Fault (Record × Option Report) :=
  if record.offset < image.origin then
    if tell then do
      let notice ← (Notice.belowOrigin record.offset image.origin).shown
      .ok (record, some ⟨notice, record.line⟩)
    else .ok (record, none)
  else do
    let count ← wordCount record.nbits image.width
    let text ← image.render record.offset count
    .ok ({ record with text }, none)

/-- Renders records in order.  The first that fails and those after it stay as they are. -/
def renderAll (image : Image) (tell : Bool) :
    List Record → Except Fault Unit × List Record × List Report
  | [] => (.ok (), [], [])
  | record :: rest =>
    match record.render image tell with
    | .error fault => (.error fault, record :: rest, [])
    | .ok (rendered, report) =>
      let (result, records, reports) := renderAll image tell rest
      (result, rendered :: records, report.toList ++ reports)

end Record

end Retarget
