import Retarget.Proofs.Patching

/-!
# Fixups in another order

Resolving a list of fixups flips what their symbols give, and flips may be made in any order.  So
the order of the fixups does not matter: whether all of them can be resolved, the words and their
number afterwards, how many fixups count as resolved, and what is told of each of them
(`Resolution.resolveAll_reordered`).  Fixups may overlap, and words may be wider than the image
says.

What is told of a fixup depends on nothing but the fixup, the symbols and the origin
(`Fixup.Comes`).
-/

namespace Retarget

section

variable [Machine]

namespace Fixup

variable {symbols : String → Option SymbolValue} {origin : Int} {fix : Fixup}

/-- How much a fixup adds to the number of resolved ones. -/
def counted (symbols : String → Option SymbolValue) (origin : Int) (fix : Fixup) : Nat :=
  match fix.judge symbols origin with
  | .skip _ => 0
  | .fill _ => 1

/-- What comes of a fixup: what is told of it, and how it is counted. -/
inductive Comes (symbols : String → Option SymbolValue) (origin : Int) (fix : Fixup) :
    List Report → Nat → Prop
  | below (hofs : fix.ofs < origin) :
      Comes symbols origin fix [⟨.belowOrigin fix.ofs origin, fix.line⟩] 0
  | unknown (hofs : origin ≤ fix.ofs) (hsym : symbols fix.sym = none) :
      Comes symbols origin fix [⟨.symbolNotFound fix.sym, fix.line⟩] 0
  | textual {value : SymbolValue} (hofs : origin ≤ fix.ofs) (hsym : symbols fix.sym = some value)
      (hnumber : value.toNumber? = none) :
      Comes symbols origin fix [⟨.symbolNotNumeric fix.sym value.written, fix.line⟩] 0
  | filled {value : SymbolValue} {n : Int} (hofs : origin ≤ fix.ofs)
      (hsym : symbols fix.sym = some value) (hnumber : value.toNumber? = some n)
      (hfits : (fix.adjust n).natAbs < 2 ^ fix.bitlen.toNat) :
      Comes symbols origin fix [] 1
  | tooWide {value : SymbolValue} {n : Int} (hofs : origin ≤ fix.ofs)
      (hsym : symbols fix.sym = some value) (hnumber : value.toNumber? = some n)
      (hwide : 2 ^ fix.bitlen.toNat ≤ (fix.adjust n).natAbs) :
      Comes symbols origin fix [⟨.symbolTooWide fix.sym (fix.adjust n) fix.bitlen, fix.line⟩] 1

omit [Machine] in
/-- A value overflows its bits if it is as large as they reach. -/
theorem overflows_iff {bitlen : Nat} {value : Int} :
    overflows bitlen value = true ↔ 2 ^ bitlen ≤ value.natAbs := by
  have hfits : Bits.fits bitlen (value.natAbs : Int) = true ↔ value.natAbs < 2 ^ bitlen := by
    rw [Bits.fits_iff]
    constructor
    · rintro ⟨-, hlt⟩
      exact_mod_cast hlt
    · intro hlt
      exact ⟨Int.natCast_nonneg _, by exact_mod_cast hlt⟩
  rw [overflows, Bool.not_eq_true', ← Bool.not_eq_true, hfits, Nat.not_lt]

omit [Machine] in
/-- A fixup comes to what it tells and counts. -/
theorem comes (symbols : String → Option SymbolValue) (origin : Int) (fix : Fixup) :
    fix.Comes symbols origin (fix.told symbols origin) (fix.counted symbols origin) := by
  unfold told counted judge
  by_cases hofs : fix.ofs < origin
  · simp only [if_pos hofs]
    exact .below hofs
  · have hle := Int.not_lt.1 hofs
    simp only [if_neg hofs]
    cases hsym : symbols fix.sym with
    | none => exact .unknown hle hsym
    | some value =>
      cases hnumber : value.toNumber? with
      | none =>
        simp only [hnumber]
        exact .textual hle hsym hnumber
      | some n =>
        simp only [hnumber]
        by_cases hover : overflows fix.bitlen.toNat (fix.adjust n) = true
        · rw [if_pos hover]
          exact .tooWide hle hsym hnumber (overflows_iff.1 hover)
        · rw [if_neg hover]
          exact .filled hle hsym hnumber (Nat.not_le.1 (mt overflows_iff.2 hover))

end Fixup

namespace Resolution

variable {symbols : String → Option SymbolValue} {fix : Fixup} {fixups fixups' : List Fixup}
  {r r' : Resolution} {image : Image}

/-- Resolving a fixup counts it if it is resolved. -/
theorem resolved_of_resolve (h : (resolve symbols fix).runFrom r = (.ok (), r')) :
    r'.resolved = r.resolved + fix.counted symbols r.image.origin := by
  unfold Fixup.counted
  rcases resolve_eq_ok h with ⟨notice, hjudge, rfl⟩ | ⟨value, image, hjudge, -, rfl⟩
  · rw [hjudge]
    rfl
  · rw [hjudge]

/-- Resolving fixups counts those that are resolved. -/
theorem resolved_of_resolveAll (h : (resolveAll symbols fixups).runFrom r = (.ok (), r')) :
    r'.resolved = r.resolved + (fixups.map (Fixup.counted symbols r.image.origin)).sum := by
  induction fixups generalizing r with
  | nil =>
    cases h
    rfl
  | cons fix rest ih =>
    obtain ⟨u, t, hfix, hrest⟩ := Attempt.runFrom_bind_eq_ok.1 h
    obtain ⟨himage, -⟩ := image_of_resolve hfix
    rw [ih hrest, resolved_of_resolve hfix, himage, Image.origin_flipAll, List.map_cons,
      List.sum_cons,
      Nat.add_assoc]

/-- A fixup that does not count changes nothing, whether it can be told of or not. -/
theorem resolve_of_counted (hcounted : fix.counted symbols r.image.origin = 0) :
    ((resolve symbols fix).runFrom r).2.image = r.image ∧
      ((resolve symbols fix).runFrom r).2.resolved = r.resolved := by
  cases hjudge : fix.judge symbols r.image.origin with
  | fill value =>
    rw [Fixup.counted, hjudge] at hcounted
    cases hcounted
  | skip notice =>
    rw [resolve, Attempt.runFrom_bind_ok (Attempt.runFrom_get r), hjudge]
    simp only [report]
    cases hshown : notice.shown with
    | ok shown => exact ⟨rfl, rfl⟩
    | error fault => exact ⟨rfl, rfl⟩

/-- What a list of fixups has come to when all of them are resolved. -/
structure Settles (symbols : String → Option SymbolValue) (image : Image) (fixups : List Fixup)
    (r : Resolution) : Prop where
  reports : r.reports = fixups.flatMap (Fixup.told symbols image.origin)
  resolved : r.resolved = (fixups.map (Fixup.counted symbols image.origin)).sum
  comes : ∀ fix ∈ fixups, fix.Comes symbols image.origin (fix.told symbols image.origin)
    (fix.counted symbols image.origin)
  /-- A fixup that is not counted is skipped, wherever it stands in the list. -/
  skips : ∀ fix ∈ fixups, fix.counted symbols image.origin = 0 →
    ∀ t : Resolution, t.image.origin = image.origin →
      ((resolve symbols fix).runFrom t).2.image = t.image ∧
        ((resolve symbols fix).runFrom t).2.resolved = t.resolved

/-- What fixups come to is told by each of them alone. -/
theorem settles_of_resolveAll
    (h : (resolveAll symbols fixups).runFrom { image := image } = (.ok (), r)) :
    Settles symbols image fixups r := by
  refine ⟨reports_of_resolveAll h, ?_, ?_, ?_⟩
  · rw [resolved_of_resolveAll h]
    exact Nat.zero_add _
  · intro fix _
    exact fix.comes symbols image.origin
  · intro fix _ hcounted t ht
    rw [← ht] at hcounted
    exact resolve_of_counted hcounted

omit [Machine] in
/-- Fixups in another order flip the same bits. -/
theorem flipAll_flips_perm (hperm : fixups.Perm fixups') :
    image.flipAll (fixups.flatMap (Fixup.flips symbols image.origin image.width)) =
      image.flipAll (fixups'.flatMap (Fixup.flips symbols image.origin image.width)) := by
  have hflips : ∀ f ∈ fixups.flatMap (Fixup.flips symbols image.origin image.width),
      f.2 < 2 ^ image.width.toNat := by
    intro f hf
    obtain ⟨fix, -, hfix⟩ := List.mem_flatMap.1 hf
    exact Fixup.flips_lt hfix
  unfold Image.flipAll
  rw [Words.flipAll_perm (hperm.flatMap_right _) hflips]

/-- How resolving fixups in two orders compares. -/
structure Reordered (symbols : String → Option SymbolValue) (image : Image)
    (fixups fixups' : List Fixup) : Prop where
  /-- All fixups are resolved exactly if none of them is too large. -/
  within : ((resolveAll symbols fixups).runFrom { image := image }).1 = .ok () ↔
    ∀ fix ∈ fixups, fix.WithinRoom symbols image.origin image.width image.room
  fault : ∀ fault, ((resolveAll symbols fixups).runFrom { image := image }).1 = .error fault →
    fault.isTooLarge = true
  alike : ((resolveAll symbols fixups').runFrom { image := image }).1 = .ok () ↔
    ((resolveAll symbols fixups).runFrom { image := image }).1 = .ok ()
  same : ((resolveAll symbols fixups).runFrom { image := image }).1 = .ok () →
    ((resolveAll symbols fixups').runFrom { image := image }).2.image =
        ((resolveAll symbols fixups).runFrom { image := image }).2.image ∧
      ((resolveAll symbols fixups').runFrom { image := image }).2.resolved =
        ((resolveAll symbols fixups).runFrom { image := image }).2.resolved ∧
      Settles symbols image fixups ((resolveAll symbols fixups).runFrom { image := image }).2 ∧
      Settles symbols image fixups' ((resolveAll symbols fixups').runFrom { image := image }).2

/-- Inside words, fixups are resolved if each of them is within the room. -/
theorem within_resolveAll (hwidth : 1 ≤ image.width) (hfixups : ∀ fix ∈ fixups, fix.Inside) :
    ((resolveAll symbols fixups).runFrom { image := image }).1 = .ok () ↔
      ∀ fix ∈ fixups, fix.WithinRoom symbols image.origin image.width image.room := by
  have hbounded : Bounded ((resolveAll symbols fixups).runFrom { image := image }).1 _ :=
    bounded_resolveAll hfixups hwidth
  rw [← hbounded.ok_iff]
  constructor
  · intro hok
    exact ⟨(), hok⟩
  · rintro ⟨⟨⟩, hok⟩
    exact hok

/-- **The order of fixups does not matter.**  In any order they are all resolved or not, and if they
are, with the same words, the same count and the same told of each of them. -/
theorem resolveAll_reordered (hwidth : 1 ≤ image.width) (hfixups : ∀ fix ∈ fixups, fix.Inside)
    (hperm : fixups.Perm fixups') : Reordered symbols image fixups fixups' := by
  have hfixups' : ∀ fix ∈ fixups', fix.Inside := fun fix hfix => hfixups fix (hperm.mem_iff.2 hfix)
  have halike : ((resolveAll symbols fixups').runFrom { image := image }).1 = .ok () ↔
      ((resolveAll symbols fixups).runFrom { image := image }).1 = .ok () := by
    -- Each fixup is judged by the image as it was at first, so its place in the list has no part in
    -- it.
    rw [within_resolveAll hwidth hfixups, within_resolveAll hwidth hfixups']
    exact forall_congr' fun fix => imp_congr_left hperm.mem_iff.symm
  have hbounded : Bounded ((resolveAll symbols fixups).runFrom { image := image }).1 _ :=
    bounded_resolveAll hfixups hwidth
  refine ⟨within_resolveAll hwidth hfixups, fun _ => hbounded.isTooLarge_of_error, halike, ?_⟩
  intro hok
  have hrun : (resolveAll symbols fixups).runFrom { image := image } = (.ok (), _) :=
    Prod.ext hok rfl
  have hrun' : (resolveAll symbols fixups').runFrom { image := image } = (.ok (), _) :=
    Prod.ext (halike.2 hok) rfl
  have hsettles := settles_of_resolveAll hrun
  have hsettles' := settles_of_resolveAll hrun'
  refine ⟨?_, ?_, hsettles, hsettles'⟩
  · rw [(image_of_resolveAll hrun).1, (image_of_resolveAll hrun').1]
    exact (flipAll_flips_perm hperm).symm
  · rw [hsettles.resolved, hsettles'.resolved]
    exact (hperm.map _).sum_eq.symm

end Resolution

end

namespace Resolution

/-- Symbols for numbers, of which one has nine bits, and for a text. -/
def sampleSymbols : String → Option SymbolValue
  | "zero" => some (.number 0)
  | "byte" => some (.number 5)
  | "wide" => some (.number 300)
  | "name" => some (.text "abc")
  | _ => none

/-- Fixups that overlap, some of which are skipped or too wide. -/
def sampleFixups : List Fixup :=
  [ { sym := "byte", ofs := 4, bitlen := 8, bitofs := 0, line := 1 },
    { sym := "wide", ofs := 4, bitlen := 8, bitofs := 4, line := 2, nbits := 16 },
    { sym := "name", ofs := 5, bitlen := 8, bitofs := 0, line := 3 },
    { sym := "none", ofs := 5, bitlen := 8, bitofs := 0, line := 4 },
    { sym := "byte", ofs := 3, bitlen := 8, bitofs := 0, line := 5 } ]

open UsualMachine in
theorem resolveAll_reordered_overlapping :
    ((resolveAll sampleSymbols sampleFixups).runFrom
        { image := { origin := 4, words := #[1000] } }).2.image.words = #[239, 192] ∧
      Reordered sampleSymbols { origin := 4, words := #[1000] } sampleFixups
        sampleFixups.reverse := by
  refine ⟨by decide +kernel, ?_⟩
  exact resolveAll_reordered (by decide) (by decide) (List.reverse_perm _).symm

/-- A field of eight bits and one of more bits than can be held. -/
def sampleOverwide : List Fixup :=
  [ { sym := "byte", ofs := 0, bitlen := 8, bitofs := 0, line := 1, nbits := 8 },
    { sym := "zero", ofs := 0, bitlen := 99999999999999999999, bitofs := 0, line := 2 } ]

open UsualMachine in
/-- Fixups before one that fails are resolved, and those behind it are not. -/
theorem not_resolveAll_overwide :
    (∀ fix ∈ sampleOverwide, fix.Inside) ∧ sampleOverwide.Perm sampleOverwide.reverse ∧
      ((resolveAll sampleSymbols sampleOverwide).runFrom { image := {} }).2.image.words ≠
        ((resolveAll sampleSymbols sampleOverwide.reverse).runFrom { image := {} }).2.image.words :=
  ⟨by decide, (List.reverse_perm _).symm, by decide +kernel⟩

end Resolution

end Retarget
