import Retarget.Proofs.Interactive
import Retarget.Proofs.Stopping

/-!
# What keeps a program from being finished

The fault of a line is told, and so is whatever a fixup or a record cannot be served for.  Finishing
a program fails nevertheless where something is too large: a number that would have to be told has
no decimal text, a field or a word cannot be held, an image or a text finds no room.  `WithinLimits`
says of every fixup, of every record and of the declared length that they are not too large, and the
main result `assemble_accounts` that this is exact: a program is finished if and only if its lines
leave an assembler within the limits, nothing but a limit is ever the reason that it is not, and all
else that went wrong is among its diagnostics.
-/

namespace Retarget

/-- Whether a fault is that something is too large to be held, counted or written. -/
def Fault.isTooLarge : Fault → Bool
  | .excess _ => true
  | .decimalTooLong => true
  | .fieldTooWide => true
  | _ => false

/-- Whether a result is a success exactly under a condition, and a fault of something too large
otherwise. -/
structure Bounded {α : Type} (result : Except Fault α) (within : Prop) : Prop where
  ok : within → ∃ v, result = .ok v
  error : ¬ within → ∃ fault, result = .error fault ∧ fault.isTooLarge = true

namespace Bounded

variable {σ α β : Type} {P Q : Prop}

theorem of_ok {result : Except Fault α} {v : α} (h : result = .ok v) (hP : P) :
    Bounded result P :=
  ⟨fun _ => ⟨v, h⟩, fun hnot => absurd hP hnot⟩

theorem of_error {result : Except Fault α} {fault : Fault} (h : result = .error fault)
    (hfault : fault.isTooLarge = true) (hP : ¬ P) : Bounded result P :=
  ⟨fun hyes => absurd hyes hP, fun _ => ⟨fault, h, hfault⟩⟩

theorem congr {result : Except Fault α} (h : Bounded result P) (hiff : P ↔ Q) : Bounded result Q :=
  ⟨fun hQ => h.ok (hiff.2 hQ), fun hQ => h.error fun hP => hQ (hiff.1 hP)⟩

/-- A success exactly under a condition. -/
theorem ok_iff {result : Except Fault α} (h : Bounded result P) :
    (∃ v, result = .ok v) ↔ P := by
  constructor
  · rintro ⟨v, hv⟩
    by_contra hP
    obtain ⟨fault, hfault, -⟩ := h.error hP
    rw [hv] at hfault
    cases hfault
  · exact h.ok

theorem isTooLarge_of_error {result : Except Fault α} (h : Bounded result P) {fault : Fault}
    (hfault : result = .error fault) : fault.isTooLarge = true := by
  have hP : ¬ P := by
    intro hP
    obtain ⟨v, hv⟩ := h.ok hP
    rw [hv] at hfault
    cases hfault
  obtain ⟨other, hother, hlarge⟩ := h.error hP
  rw [hfault] at hother
  cases hother
  exact hlarge

/-- Two results one after the other. -/
theorem bind {x : Except Fault α} {f : α → Except Fault β} (hx : Bounded x P)
    (hf : ∀ v, x = .ok v → Bounded (f v) Q) : Bounded (x >>= f) (P ∧ Q) := by
  rcases hresult : x with fault | v
  · refine ⟨?_, fun _ => ⟨fault, rfl, hx.isTooLarge_of_error hresult⟩⟩
    rintro ⟨hP, -⟩
    obtain ⟨v, hv⟩ := hx.ok hP
    rw [hresult] at hv
    cases hv
  · have hP : P := hx.ok_iff.1 ⟨v, hresult⟩
    exact (hf v hresult).congr (by simp [hP])

/-- Two attempts one after the other, of which the second meets what the first has reached. -/
theorem run_bind {x : Attempt σ α} {f : α → Attempt σ β} {s : σ} (hx : Bounded (x.runFrom s).1 P)
    (hf : ∀ v t, x.runFrom s = (.ok v, t) → Bounded ((f v).runFrom t).1 Q) :
    Bounded ((x >>= f).runFrom s).1 (P ∧ Q) := by
  rcases hrun : x.runFrom s with ⟨fault | v, t⟩
  · rw [Attempt.runFrom_bind_error hrun]
    rw [hrun] at hx
    refine ⟨?_, fun _ => ⟨fault, rfl, hx.isTooLarge_of_error rfl⟩⟩
    rintro ⟨hP, -⟩
    obtain ⟨v, ⟨⟩⟩ := hx.ok hP
  · rw [Attempt.runFrom_bind_ok hrun]
    have hnext := hf v t hrun
    rw [hrun] at hx
    have hP : P := hx.ok_iff.1 ⟨v, rfl⟩
    exact hnext.congr (by simp [hP])

/-- What always succeeds may follow. -/
theorem run_then {x : Attempt σ α} {f : α → Attempt σ β} {s : σ} (hx : Bounded (x.runFrom s).1 P)
    (hf : ∀ v t, ∃ w, ((f v).runFrom t).1 = .ok w) : Bounded ((x >>= f).runFrom s).1 P := by
  refine (hx.run_bind fun v t _ => ?_).congr (and_iff_left trivial)
  obtain ⟨w, hw⟩ := hf v t
  exact .of_ok hw trivial

/-- Attempts for each element of a list, each of which keeps what the others need. -/
theorem run_each {f : β → Attempt σ Unit} {within : β → Prop} {inv : σ → Prop} {xs : List β}
    (h : ∀ x ∈ xs, ∀ s, inv s → Bounded ((f x).runFrom s).1 (within x) ∧
      ∀ u t, (f x).runFrom s = (.ok u, t) → inv t) {s : σ} (hs : inv s) :
    Bounded ((Attempt.each f xs).runFrom s).1 (∀ x ∈ xs, within x) := by
  induction xs generalizing s with
  | nil => exact .of_ok rfl (List.forall_mem_nil _)
  | cons x rest ih =>
    obtain ⟨hx, hrest⟩ := List.forall_mem_cons.1 h
    have hstep := hx s hs
    refine (run_bind hstep.1 fun u t ht => ih hrest (hstep.2 u t ht)).congr ?_
    exact List.forall_mem_cons.symm

end Bounded

/-! ## Fixups -/

/-- Whether all numbers of a notice have a decimal text. -/
def Notice.HasText (notice : Notice) : Prop :=
  notice.numbers.all Radix.hasDecimal = true

theorem Notice.bounded_shown (notice : Notice) : Bounded notice.shown notice.HasText := by
  rw [shown]
  split
  · rename_i htext
    exact .of_ok rfl htext
  · rename_i htext
    exact .of_error rfl rfl htext

theorem Resolution.bounded_report {r : Resolution} (notice : Notice) (line : Int) :
    Bounded ((report notice line).runFrom r).1 notice.HasText := by
  refine Bounded.run_then ?_ fun shown t => ⟨(), rfl⟩
  exact notice.bounded_shown

section

variable [Machine]

namespace Capacity

theorem bounded_fieldBits {width : Int} (hwidth : 0 ≤ width) :
    Bounded (fieldBits width) (fieldBits width = .ok width.toNat) := by
  rcases hbits : fieldBits width with fault | bits
  · obtain ⟨why, rfl⟩ := fieldBits_eq_error hwidth hbits
    exact .of_error rfl rfl nofun
  · obtain ⟨-, rfl⟩ := fieldBits_eq_ok hbits
    exact .of_ok rfl rfl

end Capacity

namespace Fixup

variable {symbols : String → Option SymbolValue} {origin width : Int} {fix : Fixup}

/-- What is told of a fixup: why it cannot be filled, or that its value is too wide. -/
def told (symbols : String → Option SymbolValue) (origin : Int) (fix : Fixup) : List Report :=
  match fix.judge symbols origin with
  | .skip notice => [⟨notice, fix.line⟩]
  | .fill value =>
    if overflows fix.bitlen.toNat value then [⟨.symbolTooWide fix.sym value fix.bitlen, fix.line⟩]
    else []

/-- Whether a value can be held in a field, in the instruction of the field and in words of this
width. -/
structure Holds (width : Int) (fix : Fixup) (value : Int) : Prop where
  field : Capacity.fieldBits fix.bitlen = .ok fix.bitlen.toNat
  placed : ∃ placed, Capacity.shiftUp (Bits.low fix.bitlen.toNat value)
    (fix.length - fix.bitofs - fix.bitlen) = .ok placed
  words : Capacity.fieldBits width = .ok width.toNat

/-- Whether a fixup is not too large: what is told of it can be written, a value that is put in can
be held, and the words that it changes are among the first `room` ones. -/
structure WithinRoom (symbols : String → Option SymbolValue) (origin width : Int) (room : Nat)
    (fix : Fixup) : Prop where
  told : ∀ report ∈ fix.told symbols origin, report.notice.HasText
  holds : ∀ value, fix.judge symbols origin = .fill value → fix.Holds width value
  room : ∀ f ∈ fix.flips symbols origin width, f.1 < room

/-- Whether a value of a field can be put into an image. -/
structure HeldIn (image : Image) (fix : Fixup) (value : Nat) : Prop where
  placed : ∃ placed,
    Capacity.shiftUp value (fix.length - fix.bitofs - fix.bitlen) = .ok placed
  words : Capacity.fieldBits image.width = .ok image.width.toNat
  room : ∀ f ∈ fix.row image.origin image.width value, f.1 < image.room

variable {image : Image}

/-- The limits of a fixup that is filled, in the order in which they are met. -/
theorem withinRoom_iff_of_fill {value : Int}
    (hjudge : fix.judge symbols image.origin = .fill value) :
    fix.WithinRoom symbols image.origin image.width image.room ↔
      Capacity.fieldBits fix.bitlen = .ok fix.bitlen.toNat ∧
      (∀ report ∈ fix.told symbols image.origin, report.notice.HasText) ∧
      fix.HeldIn image (Bits.low fix.bitlen.toNat value) := by
  obtain ⟨horigin, hvalue⟩ := value_of_fill hjudge fix.bitlen.toNat
  have hflips := @flips_of_le symbols _ image.width _ horigin
  rw [hvalue] at hflips
  constructor
  · rintro ⟨htold, hholds, hroom⟩
    obtain ⟨hfield, hplaced, hwords⟩ := hholds value hjudge
    exact ⟨hfield, htold, hplaced, hwords, hflips ▸ hroom⟩
  · rintro ⟨hfield, htold, hplaced, hwords, hroom⟩
    refine ⟨htold, ?_, hflips ▸ hroom⟩
    intro other hother
    rw [hjudge] at hother
    cases hother
    exact ⟨hfield, hplaced, hwords⟩

/-- The words that a value changes can be found if the value can be placed and words can be held. -/
theorem patches_cases (hfix : fix.Inside) (hwidth : 1 ≤ width) (value : Int) :
    (((∃ placed, Capacity.shiftUp value (fix.length - fix.bitofs - fix.bitlen) = .ok placed) ∧
        Capacity.fieldBits width = .ok width.toNat) ∧
      ∃ patches, fix.patches width value = .ok patches) ∨
    (¬((∃ placed, Capacity.shiftUp value (fix.length - fix.bitofs - fix.bitlen) = .ok placed) ∧
        Capacity.fieldBits width = .ok width.toNat) ∧
      ∃ why, fix.patches width value = .error (.excess why)) := by
  have hend := hfix.le_length
  unfold patches
  rw [wordCount, if_neg (by omega)]
  rcases hplaced : Capacity.shiftUp value (fix.length - fix.bitofs - fix.bitlen) with fault | placed
  · obtain ⟨why, rfl⟩ := Capacity.shiftUp_eq_error (by omega) hplaced
    refine .inr ⟨?_, why, rfl⟩
    rintro ⟨⟨placed, ⟨⟩⟩, -⟩
  rcases hbits : Capacity.fieldBits width with fault | bits
  · obtain ⟨why, rfl⟩ := Capacity.fieldBits_eq_error (by omega) hbits
    refine .inr ⟨?_, why, rfl⟩
    rintro ⟨-, ⟨⟩⟩
  · obtain ⟨-, rfl⟩ := Capacity.fieldBits_eq_ok hbits
    refine .inl ⟨⟨⟨placed, rfl⟩, rfl⟩, ?_⟩
    by_cases hzero : placed = 0
    · exact ⟨_, if_pos hzero⟩
    · exact ⟨_, if_neg hzero⟩

/-- **Putting a value into a field** flips the words that it changes, if it can be put in.
Otherwise some of them may have been flipped before that was found out. -/
theorem apply_cases (hfix : fix.Inside) (hwidth : 1 ≤ image.width)
    (horigin : image.origin ≤ fix.ofs) (value : Nat) :
    (fix.HeldIn image value ∧ (fix.apply value).runFrom image =
        (.ok (), image.flipAll (fix.row image.origin image.width value))) ∨
      (¬fix.HeldIn image value ∧
        ∃ before why, before <+: fix.row image.origin image.width value ∧
          (fix.apply value).runFrom image = (.error (.excess why), image.flipAll before)) := by
  rcases patches_cases hfix hwidth value with
    ⟨⟨hplaced, hwords⟩, patches, hok⟩ | ⟨hnot, why, herror⟩
  · refine (apply_of_patches horigin hok).imp ?_ ?_
    · rintro ⟨hroom, hrun⟩
      exact ⟨⟨hplaced, hwords, hroom⟩, hrun⟩
    · rintro ⟨hroom, hrun⟩
      exact ⟨fun hheld => hroom hheld.room, hrun⟩
  · refine .inr ⟨fun hheld => hnot ⟨hheld.placed, hheld.words⟩, [], why, List.nil_prefix, ?_⟩
    rw [Attempt.runFrom, Fixup.apply, herror]
    rfl

theorem bounded_apply (hfix : fix.Inside) (hwidth : 1 ≤ image.width)
    (horigin : image.origin ≤ fix.ofs) (value : Nat) :
    Bounded ((fix.apply value).runFrom image).1 (fix.HeldIn image value) := by
  rcases apply_cases hfix hwidth horigin value with ⟨hheld, hrun⟩ | ⟨hnot, before, why, -, hrun⟩
  · exact .of_ok (congrArg Prod.fst hrun) hheld
  · exact .of_error (congrArg Prod.fst hrun) rfl hnot

end Fixup

/-! ## Resolving -/

namespace Resolution

variable {symbols : String → Option SymbolValue} {fix : Fixup} {r r' : Resolution}

theorem bounded_skip {notice : Notice} (hjudge : fix.judge symbols r.image.origin = .skip notice) :
    Bounded ((resolve symbols fix).runFrom r).1
      (fix.WithinRoom symbols r.image.origin r.image.width r.image.room) := by
  have htold : fix.told symbols r.image.origin = [⟨notice, fix.line⟩] := by
    rw [Fixup.told, hjudge]
  rw [resolve, Attempt.runFrom_bind_ok (Attempt.runFrom_get r), hjudge]
  refine (bounded_report notice fix.line).congr ?_
  constructor
  · intro htext
    refine ⟨?_, ?_, ?_⟩
    · rw [htold, List.forall_mem_singleton]
      exact htext
    · intro value hvalue
      rw [hjudge] at hvalue
      cases hvalue
    · rw [Fixup.flips_of_skip hjudge]
      exact List.forall_mem_nil _
  · intro hlimits
    exact hlimits.told ⟨notice, fix.line⟩ (by rw [htold]; exact List.mem_singleton_self _)

/-- A value is cut to its field first, then told to be too wide if it is, then put in. -/
theorem bounded_fill (hfix : fix.Inside) (hwidth : 1 ≤ r.image.width) {value : Int}
    (hjudge : fix.judge symbols r.image.origin = .fill value) :
    Bounded ((resolve symbols fix).runFrom r).1
      (fix.WithinRoom symbols r.image.origin r.image.width r.image.room) := by
  obtain ⟨horigin, -⟩ := Fixup.value_of_fill hjudge fix.bitlen.toNat
  have hbitlen := hfix.bitlen
  have hput : ∀ t : Resolution, t.image = r.image →
      Bounded ((onImage (fix.apply (Bits.low fix.bitlen.toNat value)) >>= fun _ =>
        modify fun (r : Resolution) => { r with resolved := r.resolved + 1 }).runFrom t).1
        (fix.HeldIn r.image (Bits.low fix.bitlen.toNat value)) := by
    intro t ht
    refine Bounded.run_then ?_ fun _ _ => ⟨⟨⟩, rfl⟩
    show Bounded ((fix.apply _).runFrom t.image).1 _
    rw [ht]
    exact Fixup.bounded_apply hfix hwidth horigin _
  have hcut : Bounded (lowBits fix.bitlen value)
      (Capacity.fieldBits fix.bitlen = .ok fix.bitlen.toNat) := by
    refine (Bounded.bind (Capacity.bounded_fieldBits (by omega)) fun bits _ => ?_).congr
      (and_iff_left trivial)
    exact .of_ok rfl trivial
  refine Bounded.congr ?_ (Fixup.withinRoom_iff_of_fill hjudge).symm
  rw [resolve, Attempt.runFrom_bind_ok (Attempt.runFrom_get r), hjudge]
  refine Bounded.run_bind hcut ?_
  intro low t ht
  obtain ⟨hlow, rfl⟩ := Prod.mk.inj ht
  obtain rfl := lowBits_eq_ok hlow
  rw [Fixup.told, hjudge]
  by_cases hover : Fixup.overflows fix.bitlen.toNat value = true
  · simp only [if_pos hover, List.forall_mem_singleton]
    exact (bounded_report _ _).run_bind fun u t ht => hput t (image_of_report ht)
  · simp only [if_neg hover]
    exact (hput r rfl).congr (and_iff_right (List.forall_mem_nil _)).symm

/-- **A fixup is resolved exactly within its limits.** -/
theorem bounded_resolve (hfix : fix.Inside) (hwidth : 1 ≤ r.image.width) :
    Bounded ((resolve symbols fix).runFrom r).1
      (fix.WithinRoom symbols r.image.origin r.image.width r.image.room) := by
  rcases hjudge : fix.judge symbols r.image.origin with notice | value
  · exact bounded_skip hjudge
  · exact bounded_fill hfix hwidth hjudge

theorem bounded_resolveAll {fixups : List Fixup} (hfixups : ∀ fix ∈ fixups, fix.Inside)
    (hwidth : 1 ≤ r.image.width) :
    Bounded ((resolveAll symbols fixups).runFrom r).1
      (∀ fix ∈ fixups, fix.WithinRoom symbols r.image.origin r.image.width r.image.room) := by
  have hstep : ∀ fix ∈ fixups, ∀ t : Resolution, r.image.Alike t.image →
      Bounded ((resolve symbols fix).runFrom t).1
        (fix.WithinRoom symbols r.image.origin r.image.width r.image.room) ∧
      ∀ u t', (resolve symbols fix).runFrom t = (.ok u, t') → r.image.Alike t'.image := by
    intro fix hfix t ht
    constructor
    · rw [← ht.width, ← ht.origin, ← ht.room]
      exact bounded_resolve (hfixups fix hfix) (ht.width ▸ hwidth)
    · intro u t' hrun
      obtain ⟨himage, hroom⟩ := image_of_resolve hrun
      rw [himage]
      exact ht.flipAll hroom
  exact Bounded.run_each hstep (.refl r.image)

/-- What is told of a fixup is among the reports. -/
theorem reports_of_resolve (h : (resolve symbols fix).runFrom r = (.ok (), r')) :
    r'.reports = r.reports ++ fix.told symbols r.image.origin := by
  unfold Fixup.told
  rcases resolve_eq_ok h with ⟨notice, hjudge, rfl⟩ | ⟨value, image, hjudge, -, rfl⟩
  · rw [hjudge]
  · rw [hjudge]

theorem reports_of_resolveAll {fixups : List Fixup}
    (h : (resolveAll symbols fixups).runFrom r = (.ok (), r')) :
    r'.reports = r.reports ++ fixups.flatMap (Fixup.told symbols r.image.origin) := by
  induction fixups generalizing r with
  | nil =>
    cases h
    exact (List.append_nil _).symm
  | cons fix rest ih =>
    obtain ⟨u, t, hfix, hrest⟩ := Attempt.runFrom_bind_eq_ok.1 h
    obtain ⟨himage, -⟩ := image_of_resolve hfix
    rw [ih hrest, reports_of_resolve hfix, himage, List.append_assoc, List.flatMap_cons]
    rfl

end Resolution

/-! ## Rendering -/

theorem Capacity.bounded_checkText (length : Nat) :
    Bounded (checkText length) (length ≤ Machine.text) := by
  rw [checkText]
  split
  · exact .of_error rfl rfl (by omega)
  · exact .of_ok rfl (by omega)

/-- A text can be held if there is room for it. -/
theorem Capacity.bounded_holdText (s : String) :
    Bounded (holdText s) (s.length ≤ Machine.text) :=
  (Bounded.bind (bounded_checkText s.length) fun _ _ => .of_ok rfl trivial).congr
    (and_iff_left trivial)

/-- A field may be as wide as there is room for its text. -/
theorem Hex.bounded_fieldWidth (digits : Nat) :
    Bounded (fieldWidth digits) (digits ≤ Machine.text) := by
  have hroom : Machine.text < Capacity.countBound := text_lt_countBound
  by_cases hcount : digits < Capacity.countBound
  · rw [fieldWidth_natCast hcount]
    split
    · rename_i h
      exact .of_ok rfl h
    · rename_i h
      exact .of_error rfl rfl h
  · rcases fieldWidth_of_uncountable (Nat.le_of_not_lt hcount) with herror | herror
    · exact .of_error herror rfl (by omega)
    · exact .of_error herror rfl (by omega)

/-- There is a field of a number if there is room for its text. -/
theorem Hex.bounded_field (value : Int) (digits : Nat) :
    Bounded (field value digits) ((Literal.hexText value digits).length ≤ Machine.text) := by
  refine (Bounded.bind (bounded_fieldWidth digits) fun n hwidth => ?_).congr
    (and_iff_right_of_imp (Literal.le_length_hexText value digits).trans)
  obtain ⟨rfl, -⟩ := fieldWidth_eq_ok hwidth
  exact Capacity.bounded_holdText _

/-- Words can be shown if there is room for their text. -/
theorem Hex.bounded_wordFields_bind {width : Int} {words : List Nat} (join : List String → String)
    (hjoin : words.length * (Literal.hexDigits width + 1) - 1 ≤ (join (texts width words)).length) :
    Bounded (wordFields width words >>= fun fields => Capacity.holdText (join fields))
      ((join (texts width words)).length ≤ Machine.text) := by
  by_cases hcount : Literal.hexDigits width < Capacity.countBound
  · rw [wordFields_bind_holdText hcount join hjoin]
    exact Capacity.bounded_holdText _
  rcases words with _ | ⟨word, rest⟩
  · exact Capacity.bounded_holdText _
  -- One word is longer than what can be counted.
  have hlong : ¬ (join (texts width (word :: rest))).length ≤ Machine.text := by
    have hroom : Machine.text < Capacity.countBound := text_lt_countBound
    rw [List.length_cons, Nat.add_mul, Nat.one_mul] at hjoin
    omega
  rcases wordFields_of_uncountable (Nat.le_of_not_lt hcount) (List.cons_ne_nil word rest) with
    herror | herror
  · rw [herror]
    exact .of_error rfl rfl hlong
  · rw [herror]
    exact .of_error rfl rfl hlong

/-- The words from an address on can be written if there is room for their text. -/
theorem Image.bounded_render {image : Image} {address : Int} (horigin : image.origin ≤ address)
    (count : Int) : Bounded (image.render address count)
      ((image.textFrom address count.toNat).length ≤ Machine.text) := by
  rw [render_eq_bind horigin]
  exact Hex.bounded_wordFields_bind (" ".intercalate ·) (Hex.le_length_intercalate_texts rfl _ _)

theorem Image.bounded_pad {image : Image} (hroom : image.words.size ≤ Machine.words)
    (length : Int) : Bounded (image.pad length) (length.toNat ≤ Machine.words) := by
  rcases hpad : image.pad length with fault | grown
  · obtain ⟨why, rfl⟩ := pad_eq_error hpad
    refine .of_error rfl rfl fun hlength => ?_
    have hok : image.pad length = .ok _ := pad_eq_ok.2 ⟨.inr hlength, rfl⟩
    rw [hpad] at hok
    cases hok
  · refine .of_ok rfl ?_
    have := (pad_eq_ok.1 hpad).1
    omega

/-- Whether a record is not too large: what is told of a record in front of the origin can be
written, and there is room for the text of the words of any other. -/
structure Record.WithinLimits (image : Image) (record : Record) : Prop where
  told : record.offset < image.origin → (Notice.belowOrigin record.offset image.origin).HasText
  text : image.origin ≤ record.offset → (record.shownIn image).text.length ≤ Machine.text

namespace Record

variable {image : Image} {record : Record}

theorem bounded_render (hwidth : 1 ≤ image.width) :
    Bounded (record.render image true) (record.WithinLimits image) := by
  rw [render]
  by_cases hbelow : record.offset < image.origin
  · rw [if_pos hbelow, if_pos rfl]
    refine (Bounded.bind (Notice.bounded_shown _)
      fun notice _ => Bounded.of_ok rfl trivial).congr ?_
    rw [and_iff_left trivial]
    constructor
    · intro htext
      exact ⟨fun _ => htext, fun hle => absurd hbelow (Int.not_lt.2 hle)⟩
    · intro hlimits
      exact hlimits.told hbelow
  · rw [if_neg hbelow, wordCount, if_neg (by omega)]
    refine (Bounded.bind (Image.bounded_render (Int.not_lt.1 hbelow) _) fun text _ =>
      Bounded.of_ok rfl trivial).congr ?_
    have hshown : (record.shownIn image).text =
        image.textFrom record.offset (record.count image.width) := by
      rw [shownIn, if_neg hbelow]
      rfl
    rw [and_iff_left trivial]
    constructor
    · intro htext
      exact ⟨fun h => absurd h hbelow, fun _ => hshown ▸ htext⟩
    · intro hlimits
      exact hshown ▸ hlimits.text (Int.not_lt.1 hbelow)

theorem bounded_renderAll (hwidth : 1 ≤ image.width) (records : List Record) :
    Bounded (renderAll image true records).1
      (∀ record ∈ records, record.WithinLimits image) := by
  induction records with
  | nil => exact .of_ok rfl (List.forall_mem_nil _)
  | cons record rest ih =>
    have hfirst : Bounded (record.render image true) (record.WithinLimits image) :=
      bounded_render hwidth
    rw [renderAll]
    rcases hrender : record.render image true with fault | ⟨rendered, report⟩
    · refine .of_error rfl (hfirst.isTooLarge_of_error hrender) ?_
      intro hall
      obtain ⟨v, hv⟩ := hfirst.ok (List.forall_mem_cons.1 hall).1
      rw [hrender] at hv
      cases hv
    · have hrecord := hfirst.ok_iff.1 ⟨_, hrender⟩
      refine ih.congr ?_
      rw [List.forall_mem_cons, and_iff_right hrecord]

end Record

/-! ## Finishing -/

namespace Assembler

open Attempt

variable {library : Option Library} {a b : Assembler}

/-- Whether nothing that finishing an assembler takes is too large; the records are shown in the
image that the fixups leave. -/
structure WithinLimits (a : Assembler) : Prop where
  fixups : ∀ fix ∈ a.fixups.toList,
    fix.WithinRoom (Bindings.find? a.symbols) a.origin a.width Machine.words
  records : ∀ record ∈ a.records.toList, record.WithinLimits (a.image.flipAll a.flips)
  length : a.codelen.toNat ≤ Machine.words

/-- What is told when an assembler is finished: of fixups that cannot be filled or hold too wide a
value, then of records in front of the origin. -/
def unserved (a : Assembler) : List Report :=
  a.fixups.toList.flatMap (Fixup.told (Bindings.find? a.symbols) a.origin) ++
    a.records.toList.filterMap (Record.below? a.image)

/-- Resolving the fixups leaves the rest as it is. -/
structure Resolved (a b : Assembler) : Prop where
  flipped : Image.Flipped a.flips a.image b.image
  frame : b = { a with image := b.image, diagnostics := b.diagnostics }
  told : b.diagnostics.toList = a.diagnostics.toList ++
    (a.fixups.toList.flatMap (Fixup.told (Bindings.find? a.symbols) a.origin)).map fun report =>
      ⟨report.notice, a.lineOr (some report.line), false⟩

theorem resolved_of_resolveFixups (hs : a.Sound) (h : resolveFixups.runFrom a = (.ok (), b)) :
    a.Resolved b := by
  rw [runFrom_resolveFixups] at h
  rcases hrun : (Resolution.resolveAll (Bindings.find? a.symbols) a.fixups.toList).runFrom
    { image := a.image } with ⟨result, reached⟩
  rw [hrun] at h
  obtain ⟨rfl, rfl⟩ := Prod.mk.inj h
  have hflipped := Resolution.flipped_of_resolveAll hs.room hrun
  have hreports := Resolution.reports_of_resolveAll hrun
  rw [List.nil_append] at hreports
  refine ⟨?_, ?_, ?_⟩
  · rw [warnAll_eq]
    exact hflipped
  · rw [warnAll_eq]
  · rw [warnAll_eq, Array.toList_append, hreports, hs.image_origin]
    rfl

/-- Rendering the records leaves the rest as it is. -/
structure Rendered (a b : Assembler) : Prop where
  frame : b = { a with records := b.records, diagnostics := b.diagnostics }
  told : b.diagnostics.toList = a.diagnostics.toList ++
    (a.records.toList.filterMap (Record.below? a.image)).map fun report =>
      ⟨report.notice, a.lineOr (some report.line), false⟩

theorem rendered_of_renderRecords (hwidth : 0 ≤ a.image.width)
    (h : renderRecords.runFrom a = (.ok (), b)) : a.Rendered b := by
  rw [runFrom_renderRecords] at h
  rcases hrun : Record.renderAll a.image true a.records.toList with ⟨result, records, reports⟩
  rw [hrun] at h
  obtain ⟨rfl, rfl⟩ := Prod.mk.inj h
  obtain ⟨⟨-, hreports⟩, -⟩ := Record.renderAll_eq_ok hwidth hrun
  refine ⟨?_, ?_⟩
  · rw [warnAll_eq]
  · rw [warnAll_eq, Array.toList_append, hreports]
    rfl

/-- **An assembler is finished exactly within its limits.** -/
theorem WellFormed.bounded_finish (h : a.WellFormed library) :
    Bounded (finish.runFrom a).1 a.WithinLimits := by
  have hwidth : 1 ≤ a.image.width := h.image_width ▸ h.width_pos
  have hresolve : Bounded (resolveFixups.runFrom a).1 (∀ fix ∈ a.fixups.toList,
      fix.WithinRoom (Bindings.find? a.symbols) a.origin a.width Machine.words) := by
    rw [runFrom_resolveFixups, ← h.image_origin, ← h.image_width, ← Image.room_eq_words h.room]
    exact Resolution.bounded_resolveAll (fun fix hfix => (h.fixups fix hfix).inside) hwidth
  have hrender : ∀ b, a.Resolved b → Bounded (renderRecords.runFrom b).1
      (∀ record ∈ a.records.toList, record.WithinLimits (a.image.flipAll a.flips)) := by
    intro b hb
    have hrecords : b.records = a.records := by rw [hb.frame]
    have himage : b.image = a.image.flipAll a.flips := hb.flipped.eq
    have hflipped : 1 ≤ (a.image.flipAll a.flips).width := hwidth
    rw [runFrom_renderRecords, hrecords, himage]
    exact Record.bounded_renderAll hflipped a.records.toList
  have hpad : ∀ b c, a.Resolved b → b.Rendered c →
      Bounded (c.image.pad c.codelen) (a.codelen.toNat ≤ Machine.words) := by
    intro b c hb hc
    have hroom : c.image.words.size ≤ Machine.words := by
      rw [hc.frame]
      exact hb.flipped.size_le
    have hlength : c.codelen = a.codelen := by rw [hc.frame, hb.frame]
    rw [← hlength]
    exact Image.bounded_pad hroom c.codelen
  have hlimits : ((∀ fix ∈ a.fixups.toList,
        fix.WithinRoom (Bindings.find? a.symbols) a.origin a.width Machine.words) ∧
      (∀ record ∈ a.records.toList, record.WithinLimits (a.image.flipAll a.flips)) ∧
      a.codelen.toNat ≤ Machine.words) ↔ a.WithinLimits :=
    ⟨fun hall => ⟨hall.1, hall.2.1, hall.2.2⟩,
      fun hall => ⟨hall.fixups, hall.records, hall.length⟩⟩
  refine (hresolve.run_bind fun u b hb => ?_).congr hlimits
  have hresolved := resolved_of_resolveFixups h.toSound hb
  refine (hrender b hresolved).run_bind fun u c hc => ?_
  have hrendered : b.Rendered c :=
    rendered_of_renderRecords (by have := hresolved.flipped.width_eq; omega) hc
  rw [runFrom_bind_ok (runFrom_get c)]
  refine Bounded.run_then ?_ fun _ _ => ⟨⟨⟩, rfl⟩
  exact hpad b c hresolved hrendered

/-- Finishing tells of what cannot be served. -/
theorem told_of_finish (hs : a.Sound) (h : finish.runFrom a = (.ok (), b)) :
    b.diagnostics.toList = a.diagnostics.toList ++
      a.unserved.map fun report => ⟨report.notice, a.lineOr (some report.line), false⟩ := by
  have hwidth : 0 ≤ a.image.width := by
    have := hs.width_pos
    rw [hs.image_width]
    omega
  obtain ⟨c, d, image, hresolve, hrender, -, rfl⟩ := stages_of_finish h
  have hresolved := resolved_of_resolveFixups hs hresolve
  have hrendered := rendered_of_renderRecords (hresolved.flipped.width_eq ▸ hwidth) hrender
  have hbelow : Record.below? c.image = Record.below? a.image := by
    funext record
    rw [Record.below?, Record.below?, hresolved.flipped.origin_eq]
  have hrecords : c.records = a.records := by rw [hresolved.frame]
  have hline : c.lineOr = a.lineOr := by
    funext line
    rw [hresolved.frame]
    rfl
  show d.diagnostics.toList = _
  rw [hrendered.told, hresolved.told, hbelow, hrecords, hline, List.append_assoc, ← List.map_append,
    unserved]

/-! ## Programs -/

/-- Whether the outcome of a program accounts for all that went wrong. -/
structure Accounts (library : Option Library) (text : String) (active : Option InstructionSet) :
    Prop where
  /-- A program is finished exactly if its lines leave an assembler within its limits. -/
  finished : ((assemble library text).runFrom (fresh active)).1 = .ok () ↔
    (assembleLines library (Text.lines text) (fresh active)).WithinLimits
  /-- It only fails for something too large. -/
  fault : ∀ fault, ((assemble library text).runFrom (fresh active)).1 = .error fault →
    fault.isTooLarge = true
  /-- All that cannot be served is told when it is finished. -/
  unserved : ((assemble library text).runFrom (fresh active)).1 = .ok () →
    (leftBy library text active).diagnostics.toList =
      (assembleLines library (Text.lines text) (fresh active)).diagnostics.toList ++
        (assembleLines library (Text.lines text) (fresh active)).unserved.map fun report =>
          ⟨report.notice, (assembleLines library (Text.lines text) (fresh active)).lineOr
            (some report.line), false⟩
  /-- The fault of a line is told as fatal, whether the program can be finished or not. -/
  lines : ∀ before line after, Text.lines text = before ++ line :: after →
    (assembleLines library before (fresh active)).aborted = false → ∀ fault b,
    (step library line).runFrom (assembleLines library before (fresh active)) = (.error fault, b) →
    ⟨.failure fault, b.line, true⟩ ∈ (leftBy library text active).diagnostics.toList
  /-- So is every other failure, in the lines of included sources as well. -/
  events : ∀ before e after, trace library (Text.lines text) (fresh active) = before ++ e :: after →
    ∀ fault b, e.attempt.runFrom (replay before (fresh active)) = (.error fault, b) →
    ⟨.failure fault, b.line, true⟩ ∈ (leftBy library text active).diagnostics.toList

/-- **Whatever goes wrong in a program is told, up to the limits of what can be held and
written.** -/
theorem assemble_accounts (library : Option Library) (text : String)
    (active : Option InstructionSet) : Accounts library text active := by
  have hwell : (assembleLines library (Text.lines text) (fresh active)).WellFormed library :=
    (wellFormed_fresh active).assembleLines _
  have hrun : (assemble library text).runFrom (fresh active) =
      finish.runFrom (assembleLines library (Text.lines text) (fresh active)) := by
    rw [assemble, runFrom_bind_ok (runFrom_modify _ _)]
  have hprefix := (warns_leftBy library text active).isPrefix
  refine ⟨?_, ?_, ?_, ?_, ?_⟩
  · rw [hrun, ← hwell.bounded_finish.ok_iff]
    constructor
    · intro hok
      exact ⟨(), hok⟩
    · rintro ⟨⟨⟩, hok⟩
      exact hok
  · intro fault hfault
    rw [hrun] at hfault
    exact hwell.bounded_finish.isTooLarge_of_error hfault
  · intro hok
    rw [leftBy, hrun]
    rw [hrun] at hok
    exact told_of_finish hwell.toSound (Prod.ext hok rfl)
  · intro before line after htext hrunning fault b hfault
    apply hprefix.subset
    have hstopped : assembleLines library (line :: after)
        (assembleLines library before (fresh active)) = b.stop (.failure fault) none := by
      rw [assembleLines, takeLines, hrunning, if_neg (by decide), guarded_of_error hfault]
      exact takeLines_of_aborted rfl after
    rw [htext, assembleLines_append, hstopped]
    simp [stop, lineOr]
  · intro before e after htrace fault b hfault
    apply hprefix.subset
    rw [assembleLines_eq_replay, htrace, replay_append, replay_cons, apply_eq_guarded,
      guarded_of_error hfault]
    apply (prefix_replay after _).subset
    simp [stop, lineOr]

end Assembler

end

namespace Assembler

open UsualMachine in
/-- A length that there is no room for keeps a program from being finished. -/
theorem assemble_accounts_overlong :
    Accounts none ".len 99999999999999999999" none ∧
      ((assemble none ".len 99999999999999999999").runFrom (fresh none)).1 ≠ .ok () := by
  have haccounts := assemble_accounts none ".len 99999999999999999999" none
  refine ⟨haccounts, fun hok => ?_⟩
  have hlength := (haccounts.finished.1 hok).length
  revert hlength
  decide +kernel

end Assembler

end Retarget
