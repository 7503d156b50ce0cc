import Retarget.Proofs.Patching

/-!
# Images as address maps

An image is a row of words that grows as it is written.  Seen from outside it is a map from
addresses to words: zero everywhere at first, a word is set or some of its bits are flipped by each
change, and making the image longer changes nothing.  Here the image after any changes is compared
with that map (`Image.refines_afterChanges`).  Changes may be asked for at any address, with values
and lengths of any sign and size, so some of them fail: an address in front of the origin, more
words than there is room for, words of more bits than can be held.  What a change can come to is
said once (`Change.Outcome`), and the comparison follows by induction on the changes.
-/

namespace Retarget

/-! ## Changes -/

/-- A change that is asked of an image. -/
inductive Change where
  /-- Sets a word. -/
  | put (address value : Int)
  /-- Flips bits of a word. -/
  | flip (address value : Int)
  /-- Makes the image longer. -/
  | pad (length : Int)
  deriving DecidableEq, Repr

namespace Change

/-- The address of the word that is changed. -/
def address? : Change → Option Int
  | put address _ => some address
  | flip address _ => some address
  | pad _ => none

/-- What becomes of the word at the address, in words of `width` bits. -/
def onWord (width old : Nat) : Change → Nat
  | put _ value => (value % 2 ^ width).toNat
  | flip _ value => old ^^^ (value % 2 ^ width).toNat
  | pad _ => old

/-- What becomes of a map from addresses to words of `width` bits. -/
def onMap (width : Nat) (map : Int → Nat) (change : Change) : Int → Nat :=
  match change.address? with
  | some address => Function.update map address (change.onWord width (map address))
  | none => map

/-- The map that changes make of zeros. -/
def mapOf (width : Nat) (changes : List Change) : Int → Nat :=
  changes.foldl (onMap width) fun _ => 0

/-- How many words an image from `origin` on has at least after a change. -/
def reach (origin : Int) : Change → Int
  | put address _ => address - origin + 1
  | flip address _ => address - origin + 1
  | pad length => length

/-- Whether a change is not in front of the origin. -/
def isBehind (origin : Int) (change : Change) : Bool :=
  change.address?.all fun address => decide (origin ≤ address)

variable {change : Change} {address : Int}

theorem isBehind_of_some (h : change.address? = some address) (origin : Int) :
    change.isBehind origin = decide (origin ≤ address) := by
  rw [isBehind, h, Option.all_some]

theorem reach_of_some (h : change.address? = some address) (origin : Int) :
    change.reach origin = address - origin + 1 := by
  cases change with
  | put other value =>
    cases h
    rfl
  | flip other value =>
    cases h
    rfl
  | pad length => cases h

/-- The last change is made last. -/
theorem mapOf_concat (width : Nat) (changes : List Change) (change : Change) :
    mapOf width (changes ++ [change]) = change.onMap width (mapOf width changes) := by
  rw [mapOf, List.foldl_append]
  rfl

/-- A change with an address updates the map there. -/
theorem onMap_of_some (h : change.address? = some address) (width : Nat) (map : Int → Nat) :
    change.onMap width map = Function.update map address (change.onWord width (map address)) := by
  rw [onMap, h]

/-- A change without an address leaves the map as it is. -/
theorem onMap_of_none (h : change.address? = none) (width : Nat) (map : Int → Nat) :
    change.onMap width map = map := by
  rw [onMap, h]

/-- A change keeps a word within the width. -/
theorem onWord_lt {width old : Nat} (hold : old < 2 ^ width) (change : Change) :
    change.onWord width old < 2 ^ width := by
  have hcut : ∀ value : Int, (value % 2 ^ width).toNat < 2 ^ width := by
    intro value
    rw [← Bits.low_eq]
    exact Bits.low_lt width value
  cases change with
  | put address value => exact hcut value
  | flip address value => exact Nat.xor_lt_two_pow hold (hcut value)
  | pad length => exact hold

/-- The words of the map have no more bits than they should have. -/
theorem mapOf_lt (width : Nat) (changes : List Change) (address : Int) :
    mapOf width changes address < 2 ^ width := by
  induction changes using List.reverseRecOn generalizing address with
  | nil => exact Nat.two_pow_pos width
  | append_singleton changes change ih =>
    rw [mapOf_concat]
    rcases hfound : change.address? with _ | other
    · rw [onMap_of_none hfound]
      exact ih address
    · rw [onMap_of_some hfound, Function.update_apply]
      split
      · exact onWord_lt (ih other) change
      · exact ih address

end Change

theorem foldl_max_le {start bound : Int} (hstart : start ≤ bound) {xs : List Int}
    (h : ∀ x ∈ xs, x ≤ bound) : xs.foldl max start ≤ bound := by
  induction xs generalizing start with
  | nil => exact hstart
  | cons x xs ih =>
    obtain ⟨hx, hxs⟩ := List.forall_mem_cons.1 h
    exact ih (max_le hstart hx) hxs

section

variable [Machine]

/-! ## Changes that can be made -/

namespace Change

/-- What a change does to an image. -/
def attempt : Change → Attempt Image Unit
  | put address value => Image.put address value
  | flip address value => Image.flip address value
  | pad length => do set (← Attempt.ofExcept ((← get).pad length))

/-- Whether there is room for all words up to those of a change. -/
def hasRoom (origin : Int) (change : Change) : Bool :=
  change.isBehind origin && decide (change.reach origin ≤ Machine.words)

/-- Whether the word of a change can be held, if it has one. -/
def isHeld (width : Int) (change : Change) : Bool :=
  change.address?.isNone || (Capacity.fieldBits width).isOk

/-- Whether a change can be made in an image of words of `width` bits from `origin` on. -/
def canBeMade (width origin : Int) (change : Change) : Bool :=
  change.hasRoom origin && change.isHeld width

end Change

/-- The image after changes in order, whether they fail or not. -/
def Image.afterChanges (image : Image) (changes : List Change) : Image :=
  changes.foldl (fun image change => (change.attempt.runFrom image).2) image

/-- The fault of an address in front of an image. -/
def Image.refusal (image : Image) (address : Int) : Fault :=
  Fault.showing [address, image.origin] (.belowOrigin address image.origin)

/-! ## What a change comes to -/

namespace Change

/-- What a change can come to: its result and the image that it leaves. -/
inductive Outcome (image : Image) (change : Change) : Except Fault Unit × Image → Prop where
  /-- The address is in front of the image. -/
  | refused {address : Int} (found : change.address? = some address)
      (below : address < image.origin) :
      Outcome image change (.error (image.refusal address), image)
  /-- There is no room. -/
  | crowded {why : Excess} (behind : change.isBehind image.origin = true)
      (room : change.hasRoom image.origin = false) :
      Outcome image change (.error (.excess why), image)
  /-- The word cannot be held, but the image has grown up to its place. -/
  | unheld {why : Excess} (room : change.hasRoom image.origin = true)
      (held : change.isHeld image.width = false) :
      Outcome image change (.error (.excess why),
        { image with words := Words.grow image.words (change.reach image.origin).toNat })
  /-- A word is changed. -/
  | written {address : Int} (found : change.address? = some address)
      (made : change.canBeMade image.width image.origin = true) :
      Outcome image change (.ok (), { image with
        words := Words.deposit image.words (image.place address)
          (change.onWord image.width.toNat (Words.get image.words (image.place address))) })
  /-- The image is made longer. -/
  | padded (found : change.address? = none)
      (made : change.canBeMade image.width image.origin = true) :
      Outcome image change (.ok (),
        { image with words := Words.grow image.words (change.reach image.origin).toNat })

variable {image : Image} {change : Change} {address : Int}

/-- The word that a change writes in place of the old one. -/
def newWord (width : Int) (old : Nat) : Change → Except Fault Nat
  | put _ value => lowBits width value
  | flip _ value => do
    let kept ← lowBits width old
    let flipped ← lowBits width value
    .ok (kept ^^^ flipped)
  | pad _ => .ok old

/-- A change with an address modifies the word there. -/
theorem runFrom_of_some (h : change.address? = some address) (image : Image) :
    change.attempt.runFrom image =
      (Image.modifyAt address fun old => change.newWord image.width old).runFrom image := by
  cases change with
  | put other value =>
    cases h
    rfl
  | flip other value =>
    cases h
    rfl
  | pad length => cases h

/-- A change with an address can be held if the width can. -/
theorem isHeld_of_some (h : change.address? = some address) (width : Int) :
    change.isHeld width = (Capacity.fieldBits width).isOk := by
  rw [isHeld, h]
  rfl

/-- Where words can be held, the new word is the one that the map has. -/
theorem newWord_of_isHeld (h : change.address? = some address) {width : Int}
    (hheld : change.isHeld width = true) {old : Nat} (hold : old < 2 ^ width.toNat) :
    change.newWord width old = .ok (change.onWord width.toNat old) := by
  rw [isHeld_of_some h] at hheld
  rcases hbits : Capacity.fieldBits width with fault | bits
  · rw [hbits] at hheld
    cases hheld
  · obtain ⟨-, rfl⟩ := Capacity.fieldBits_eq_ok hbits
    have hlow := Image.lowBits_of_fieldBits hbits
    cases change with
    | put other value => rw [newWord, hlow, Bits.low_eq, onWord]
    | flip other value =>
      rw [newWord, hlow, hlow, Bits.low_natCast, Nat.mod_eq_of_lt hold, Bits.low_eq]
      rfl
    | pad length => cases h

/-- Where words cannot be held, there is no new word. -/
theorem newWord_of_not_isHeld (h : change.address? = some address) {width : Int}
    (hwidth : 1 ≤ width) (hheld : change.isHeld width = false) (old : Nat) :
    ∃ why, change.newWord width old = .error (.excess why) := by
  rw [isHeld_of_some h] at hheld
  rcases hbits : Capacity.fieldBits width with fault | bits
  · obtain ⟨why, rfl⟩ := Capacity.fieldBits_eq_error (by omega) hbits
    have hlow : ∀ value, lowBits width value = .error (.excess why) := by
      intro value
      rw [lowBits, hbits]
      rfl
    cases change with
    | put other value => exact ⟨why, hlow value⟩
    | flip other value =>
      refine ⟨why, ?_⟩
      rw [newWord, hlow]
      rfl
    | pad length => cases h
  · rw [hbits] at hheld
    cases hheld

/-- A word in front of the image is not changed. -/
theorem runFrom_of_lt (hfound : change.address? = some address) (hbelow : address < image.origin) :
    change.attempt.runFrom image = (.error (image.refusal address), image) := by
  have hindex : image.index address = .error (image.refusal address) := if_pos hbelow
  rw [runFrom_of_some hfound, Attempt.runFrom, Image.modifyAt]
  simp only [hindex]

/-- What making an image longer comes to. -/
theorem outcome_pad (hroom : image.words.size ≤ Machine.words) (length : Int) :
    Outcome image (pad length) ((pad length).attempt.runFrom image) := by
  have hrun : (pad length).attempt.runFrom image =
      (Attempt.ofExcept (image.pad length) >>= set).runFrom image := rfl
  rw [hrun]
  rcases hpad : image.pad length with fault | grown
  · obtain ⟨why, rfl⟩ := Image.pad_eq_error hpad
    have hno : ¬ length ≤ Machine.words := by
      intro hle
      have hgrown : image.pad length = .ok _ := Image.pad_eq_ok.2 ⟨.inr (by omega), rfl⟩
      rw [hpad] at hgrown
      cases hgrown
    exact .crowded rfl (decide_eq_false hno)
  · obtain ⟨hsize, rfl⟩ := Image.pad_eq_ok.1 hpad
    have hle : length ≤ Machine.words := by omega
    exact .padded rfl (by simp [canBeMade, hasRoom, isBehind, isHeld, address?, reach, hle])

/-- What changing a word comes to. -/
theorem outcome_of_some (hfound : change.address? = some address) (hwidth : 1 ≤ image.width)
    (hnarrow : image.Narrow) (hroom : image.words.size ≤ Machine.words) :
    Outcome image change (change.attempt.runFrom image) := by
  by_cases hbelow : address < image.origin
  · rw [runFrom_of_lt hfound hbelow]
    exact .refused hfound hbelow
  · have horigin := Int.not_lt.1 hbelow
    have hreach : (change.reach image.origin).toNat = image.place address + 1 := by
      rw [reach_of_some hfound, Image.place]
      omega
    have hbehind : change.isBehind image.origin = true := by
      rw [isBehind_of_some hfound]
      exact decide_eq_true horigin
    have hhasRoom : change.hasRoom image.origin = true ↔ image.Reaches address := by
      rw [hasRoom, hbehind, Bool.true_and, decide_eq_true_eq, Image.reaches_iff horigin,
        Image.room_eq_words hroom]
      omega
    rw [runFrom_of_some hfound]
    by_cases hreaches : image.Reaches address
    · have hspace := hhasRoom.2 hreaches
      rw [Image.modifyAt_of_reaches hreaches]
      cases hheld : change.isHeld image.width with
      | true =>
        rw [newWord_of_isHeld hfound hheld (hnarrow.get_lt _)]
        exact .written hfound (by rw [canBeMade, hspace, hheld]; rfl)
      | false =>
        -- The image has grown by the time that the word turns out to be too wide.
        obtain ⟨why, hfault⟩ := newWord_of_not_isHeld hfound hwidth hheld
          (Words.get image.words (image.place address))
        rw [hfault, ← hreach]
        exact .unheld hspace hheld
    · obtain ⟨why, hfault⟩ := Image.modifyAt_of_no_room horigin hreaches fun old =>
        change.newWord image.width old
      rw [hfault]
      exact .crowded hbehind (Bool.eq_false_iff.2 (mt hhasRoom.1 hreaches))

/-- **What a change comes to** in an image that is not larger than there is room. -/
theorem outcome (hwidth : 1 ≤ image.width) (hnarrow : image.Narrow)
    (hroom : image.words.size ≤ Machine.words) (change : Change) :
    Outcome image change (change.attempt.runFrom image) := by
  cases change with
  | put address value => exact outcome_of_some rfl hwidth hnarrow hroom
  | flip address value => exact outcome_of_some rfl hwidth hnarrow hroom
  | pad length => exact outcome_pad hroom length

/-- A change behind the origin can be made, or something is too large. -/
theorem Outcome.bounded {out : Except Fault Unit × Image} (h : Outcome image change out)
    (hbehind : change.isBehind image.origin = true) :
    Bounded out.1 (change.canBeMade image.width image.origin = true) := by
  cases h with
  | refused found below =>
    rw [isBehind_of_some found, decide_eq_true_eq] at hbehind
    omega
  | crowded behind room =>
    refine .of_error rfl rfl ?_
    rw [canBeMade, room]
    exact Bool.false_ne_true
  | unheld room held =>
    refine .of_error rfl rfl ?_
    rw [canBeMade, held, Bool.and_false]
    exact Bool.false_ne_true
  | written found made => exact .of_ok rfl made
  | padded found made => exact .of_ok rfl made

end Change

/-! ## Images and maps -/

namespace Image

/-- Whether an image is what changes make of an empty one: it reads as the map that those make which
can be made, and is as long as those reach for which there is room. -/
structure Refines (width origin : Int) (changes : List Change) (image : Image) : Prop where
  frame : image = { width, origin, words := image.words }
  reads : ∀ address, origin ≤ address → image.read address =
    .ok (Change.mapOf width.toNat (changes.filter (Change.canBeMade width origin)) address)
  size : (image.words.size : Int) =
    ((changes.filter (Change.hasRoom origin)).map (Change.reach origin)).foldl max 0
  narrow : image.Narrow
  room : image.words.size ≤ Machine.words

variable {width origin address : Int} {changes : List Change} {image : Image}

/-- The words of an image are those of the map behind the origin. -/
theorem Refines.get (h : Refines width origin changes image) (i : Nat) :
    Words.get image.words i =
      Change.mapOf width.toNat (changes.filter (Change.canBeMade width origin)) (origin + i) := by
  have horigin : image.origin = origin := congrArg Image.origin h.frame
  have hread := h.reads (origin + i) (by omega)
  rw [read_of_le (by omega), place, horigin, add_sub_cancel_left, Int.toNat_natCast] at hread
  exact Except.ok.inj hread

/-- An image is described by its words and its length; the other properties follow. -/
theorem refines_of_get (hframe : image = { width, origin, words := image.words })
    (hget : ∀ i : Nat, Words.get image.words i =
      Change.mapOf width.toNat (changes.filter (Change.canBeMade width origin)) (origin + i))
    (hsize : (image.words.size : Int) =
      ((changes.filter (Change.hasRoom origin)).map (Change.reach origin)).foldl max 0) :
    Refines width origin changes image := by
  have horigin : image.origin = origin := congrArg Image.origin hframe
  have hwidth : image.width = width := congrArg Image.width hframe
  refine ⟨hframe, ?_, hsize, ?_, ?_⟩
  · intro address haddress
    rw [read_of_le (by omega), hget, place, horigin]
    congr 2
    omega
  · intro word hword
    obtain ⟨i, hi, rfl⟩ := Array.mem_iff_getElem.1 hword
    rw [← Words.get_eq_getElem hi, hget, hwidth]
    exact Change.mapOf_lt _ _ _
  · rw [← Int.ofNat_le, hsize]
    refine foldl_max_le (Int.natCast_nonneg _) (List.forall_mem_map.2 fun change hchange => ?_)
    have hroom := (List.mem_filter.1 hchange).2
    exact of_decide_eq_true (Bool.and_eq_true_iff.1 hroom).2

/-- An image that has followed one more change refines the map with it. -/
theorem Refines.concat (h : Refines width origin changes image) {change : Change}
    {words : Array Nat}
    (hget : ∀ i : Nat, Words.get words i =
      (if change.canBeMade width origin then
        change.onMap width.toNat
          (Change.mapOf width.toNat (changes.filter (Change.canBeMade width origin)))
      else Change.mapOf width.toNat (changes.filter (Change.canBeMade width origin))) (origin + i))
    (hsize : (words.size : Int) =
      if change.hasRoom origin then max (image.words.size : Int) (change.reach origin)
      else image.words.size) :
    Refines width origin (changes ++ [change]) { image with words } := by
  have hwidth : image.width = width := congrArg Image.width h.frame
  have horigin : image.origin = origin := congrArg Image.origin h.frame
  refine refines_of_get ?_ ?_ ?_
  · rw [← hwidth, ← horigin]
  · intro i
    rw [hget, List.filter_append]
    cases hmade : change.canBeMade width origin with
    | true => rw [List.filter_cons_of_pos hmade, List.filter_nil, Change.mapOf_concat, if_pos rfl]
    | false => simp [hmade]
  · rw [hsize, h.size, List.filter_append]
    cases hroom : change.hasRoom origin with
    | true =>
      rw [List.filter_cons_of_pos hroom, List.filter_nil, List.map_append, List.foldl_append,
        if_pos rfl]
      rfl
    | false => simp [hroom]

/-- **A change keeps the image and the map together**, whatever it comes to. -/
theorem Refines.step (h : Refines width origin changes image) {change : Change}
    {out : Except Fault Unit × Image} (hout : Change.Outcome image change out) :
    Refines width origin (changes ++ [change]) out.2 := by
  have hget := h.get
  obtain rfl : image.width = width := congrArg Image.width h.frame
  obtain rfl : image.origin = origin := congrArg Image.origin h.frame
  cases hout with
  | refused found below =>
    have hroom : change.hasRoom image.origin = false := by
      rw [Change.hasRoom, Change.isBehind_of_some found, decide_eq_false (by omega), Bool.false_and]
    refine h.concat ?_ ?_
    · simpa [Change.canBeMade, hroom] using hget
    · simp [hroom]
  | crowded behind room =>
    refine h.concat ?_ ?_
    · simpa [Change.canBeMade, room] using hget
    · simp [room]
  | unheld room held =>
    refine h.concat ?_ ?_
    · simpa [Change.canBeMade, held] using hget
    · rw [room, if_pos rfl, Words.size_grow]
      omega
  | @written address found made =>
    have hroom := (Bool.and_eq_true_iff.1 made).1
    have hbehind := (Bool.and_eq_true_iff.1 hroom).1
    rw [Change.isBehind_of_some found, decide_eq_true_eq] at hbehind
    have hplace : image.origin + (image.place address : Int) = address := by
      rw [place]
      omega
    refine h.concat ?_ ?_
    · intro i
      rw [made, if_pos rfl, Change.onMap_of_some found, Words.get_deposit, hget, hget, hplace,
        Function.update_apply]
      by_cases hi : image.place address = i
      · rw [if_pos hi, if_pos (by omega)]
      · rw [if_neg hi, if_neg (by omega)]
    · rw [hroom, if_pos rfl, Words.size_deposit, Change.reach_of_some found]
      omega
  | padded found made =>
    have hroom := (Bool.and_eq_true_iff.1 made).1
    refine h.concat ?_ ?_
    · simpa [made, Change.onMap_of_none found] using hget
    · rw [hroom, if_pos rfl, Words.size_grow]
      omega

/-- An empty image refines the empty map. -/
theorem refines_nil (width origin : Int) : Refines width origin [] { width, origin } :=
  refines_of_get rfl (fun _ => rfl) rfl

/-- What a change comes to in an image that is together with its map. -/
theorem Refines.outcome (h : Refines width origin changes image) (hwidth : 1 ≤ width)
    (change : Change) : Change.Outcome image change (change.attempt.runFrom image) := by
  have hwidth' : image.width = width := congrArg Image.width h.frame
  exact Change.outcome (hwidth'.symm ▸ hwidth) h.narrow h.room change

/-- Changes keep an image a refinement of the map. -/
theorem Refines.afterChanges (h : Refines width origin changes image) (hwidth : 1 ≤ width)
    (more : List Change) : Refines width origin (changes ++ more) (image.afterChanges more) := by
  induction more generalizing changes image with
  | nil =>
    rw [List.append_nil]
    exact h
  | cons change rest ih =>
    rw [List.append_cons]
    exact ih (h.step (h.outcome hwidth change))

/-- **An image is an address map.**  Whatever changes were asked of an empty image, it reads behind
its origin as the map that those changes make which could be made, is as long as they reach, and has
no word that is too wide.  Whatever is asked of it next, in front of its origin it refuses to be
changed or read, and behind it only what is too large cannot be done. -/
theorem refines_afterChanges {width : Int} (hwidth : 1 ≤ width) (origin : Int)
    (changes : List Change) :
    let image := ({ width, origin } : Image).afterChanges changes
    Refines width origin changes image ∧
      (∀ address < origin, image.read address = .error (image.refusal address)) ∧
      ∀ change : Change,
        (∀ address ∈ change.address?, address < origin →
          change.attempt.runFrom image = (.error (image.refusal address), image)) ∧
        (change.isBehind origin = true →
          Bounded (change.attempt.runFrom image).1 (change.canBeMade width origin = true)) := by
  intro image
  have himage : Refines width origin changes image :=
    (refines_nil width origin).afterChanges hwidth changes
  have hwidth' : image.width = width := congrArg Image.width himage.frame
  have horigin : image.origin = origin := congrArg Image.origin himage.frame
  refine ⟨himage, ?_, ?_⟩
  · intro address hbelow
    have hindex : image.index address = .error (image.refusal address) :=
      if_pos (horigin.symm ▸ hbelow)
    rw [read, hindex]
    rfl
  · intro change
    have hbounded := (himage.outcome hwidth change).bounded
    rw [horigin, hwidth'] at hbounded
    refine ⟨?_, hbounded⟩
    intro address hfound hbelow
    exact Change.runFrom_of_lt hfound (horigin.symm ▸ hbelow)

end Image

end

namespace Image

/-- Changes of all kinds: a number of more than eight bits, a negative one, an address in front of
the origin, one without room, and a length. -/
def sampleChanges : List Change :=
  [.put (-1) 300, .put (-5) 1, .flip (-1) (-1), .put 99999999999999999999 1, .pad 4, .flip 0 5]

open UsualMachine in
theorem refines_afterChanges_sample :
    let image := ({ width := 8, origin := -2 } : Image).afterChanges sampleChanges
    image.words = #[0, 211, 5, 0] ∧
      Refines 8 (-2) sampleChanges image ∧
      (∀ address < -2, image.read address = .error (image.refusal address)) ∧
      ∀ change : Change,
        (∀ address ∈ change.address?, address < -2 →
          change.attempt.runFrom image = (.error (image.refusal address), image)) ∧
        (change.isBehind (-2) = true →
          Bounded (change.attempt.runFrom image).1 (change.canBeMade 8 (-2) = true)) :=
  ⟨by decide +kernel, refines_afterChanges (by decide) (-2) sampleChanges⟩

open UsualMachine in
/-- A word of more bits than can be held is not written, although the map has it; and an address in
front of the origin is no longer told where it has no decimal text. -/
theorem not_refines_overlarge :
    ((({ width := 99999999999999999999 } : Image).afterChanges [.put 0 5]).read 0 ≠
        .ok (Change.mapOf 99999999999999999999 [.put 0 5] 0)) ∧
      ((Change.put (-Radix.decimalBound) 1).attempt.runFrom {}).1 ≠
        .error (.belowOrigin (-Radix.decimalBound) 0) := by
  constructor
  · have hmap : ∀ width, 3 ≤ width → Change.mapOf width [.put 0 5] 0 = 5 := by
      intro width hwidth
      have hlt : (5 : Int) < 2 ^ width :=
        lt_of_lt_of_le (by decide) (pow_le_pow_right₀ (by decide : (1 : Int) ≤ 2) hwidth)
      show (5 % 2 ^ width : Int).toNat = 5
      rw [Int.emod_eq_of_lt (by decide) hlt]
      rfl
    have hread : ((({ width := 99999999999999999999 } : Image).afterChanges [.put 0 5]).read
        0).toOption = some 0 := by
      decide +kernel
    intro heq
    rw [heq, hmap _ (by decide)] at hread
    cases hread
  · have hlong : Radix.hasDecimal (-Radix.decimalBound) = false := by
      rw [Radix.hasDecimal, Int.natAbs_neg, Int.natAbs_natCast]
      exact decide_eq_false (Nat.lt_irrefl _)
    have hpow : ∀ k, 0 < Nat.pow 10 k := fun k => Nat.pow_pos (by decide)
    have hbound : 0 < Radix.decimalBound := by
      unfold Radix.decimalBound
      exact hpow _
    have hbelow : (-Radix.decimalBound : Int) < ({} : Image).origin := by
      show (-Radix.decimalBound : Int) < 0
      omega
    have hrefusal : ({} : Image).refusal (-Radix.decimalBound) = .decimalTooLong := by
      rw [refusal, Fault.showing, List.all_cons, hlong]
      rfl
    rw [Change.runFrom_of_lt rfl hbelow, hrefusal]
    rintro ⟨⟩

end Image

end Retarget
