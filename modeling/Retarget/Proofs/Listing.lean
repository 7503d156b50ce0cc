import Retarget.Proofs.Records
import Retarget.Proofs.Tables
import Retarget.Report

/-!
# Listings

A listing has a row for each record, in their order: the line, the address, the number of bits and
the words of the record (`Report.listing_read`).  This does not depend on how tables are written, as
long as it is done lawfully (`Table.Style.Lawful`).  The cells of a row can be read from the text
again, since the words of a record are hexadecimal digits with single blanks between them, whatever
calls have been made.

Lines and bits are shown as they are.  Addresses and words are hexadecimal, but the table takes them
for decimal numbers where all of a column look like it: an address `01E2` between addresses without
letters, or in a listing of its own, is read as `1 * 10 ^ 2` and shown as `100`.  So a listing shows
every record as it is exactly if neither column is one of reals.
-/

namespace Retarget

/-! ## Characters of cells -/

namespace Table

/-- The characters that fill or separate cells, and the small mark of an exponent. -/
def marks : List Char := [' ', '|', '\n', 'e']

variable {cell : List Char}

/-- A cell without marks is tidy. -/
theorem Tidy.of_marks (h : ∀ c ∈ cell, c ∉ marks) : Tidy cell := by
  refine .of_forall fun c hc => ?_
  have hmark := h c hc
  refine ⟨?_, ?_, ?_⟩ <;> rintro rfl <;> exact hmark (by decide)

theorem intercalate_ne_nil {sep : List Char} {words : List (List Char)} (hwords : words ≠ [])
    (h : ∀ word ∈ words, word ≠ []) : sep.intercalate words ≠ [] := by
  rcases words with _ | ⟨word, _ | ⟨next, rest⟩⟩
  · exact absurd rfl hwords
  · rw [List.intercalate_singleton]
    exact h word List.mem_cons_self
  · rw [List.intercalate_cons_cons, List.append_assoc]
    exact List.append_ne_nil_of_left_ne_nil (h word List.mem_cons_self) _

/-- Joined words start as the first of them. -/
theorem head?_intercalate {sep word : List Char} (hword : word ≠ []) (rest : List (List Char)) :
    (sep.intercalate (word :: rest)).head? = word.head? := by
  rcases rest with _ | ⟨next, rest⟩
  · rw [List.intercalate_singleton]
  · rw [List.intercalate_cons_cons, List.append_assoc, List.head?_append_of_ne_nil _ hword]

/-- The last character of joined words is the last one of a word. -/
theorem mem_of_getLast?_intercalate {sep : List Char} {words : List (List Char)}
    (h : ∀ word ∈ words, word ≠ []) {c : Char} (hc : c ∈ (sep.intercalate words).getLast?) :
    ∃ word ∈ words, c ∈ word := by
  induction words with
  | nil => cases hc
  | cons word rest ih =>
    obtain ⟨hword, hrest⟩ := List.forall_mem_cons.1 h
    rcases rest with _ | ⟨next, rest⟩
    · rw [List.intercalate_singleton] at hc
      exact ⟨word, List.mem_cons_self, List.mem_of_getLast? hc⟩
    · rw [List.intercalate_cons_cons, List.getLast?_append_of_ne_nil _
        (intercalate_ne_nil (List.cons_ne_nil _ _) hrest)] at hc
      obtain ⟨other, hother, hmem⟩ := ih hrest hc
      exact ⟨other, List.mem_cons_of_mem _ hother, hmem⟩

/-- Words that are set apart by single blanks are a tidy cell. -/
theorem Tidy.intercalate {words : List (List Char)} (hne : ∀ word ∈ words, word ≠ [])
    (h : ∀ word ∈ words, ∀ c ∈ word, c ∉ marks) : Tidy ([' '].intercalate words) := by
  have hplain : ∀ c ∈ marks, c ≠ ' ' → c ∉ [' '].intercalate words := by
    intro c hmark hblank hc
    rcases mem_of_mem_intercalate hc with hc | ⟨word, hword, hc⟩
    · exact hblank (List.mem_singleton.1 hc)
    · exact h word hword c hc hmark
  refine ⟨strip_eq_self ?_ ?_, hplain '|' (by decide) (by decide),
    hplain '\n' (by decide) (by decide)⟩
  · intro c hc
    rcases words with _ | ⟨word, rest⟩
    · cases hc
    · rw [head?_intercalate (hne word List.mem_cons_self)] at hc
      rintro rfl
      exact h word List.mem_cons_self ' ' (List.mem_of_head? hc) (by decide)
  · intro c hc
    obtain ⟨word, hword, hmem⟩ := mem_of_getLast?_intercalate hne hc
    rintro rfl
    exact h word hword ' ' hmem (by decide)

end Table

namespace Radix

theorem digitChar_not_mem_marks {d : Nat} (h : d < 16) : digitChar d ∉ Table.marks := by
  revert d
  decide

/-- The decimal text of a number has no marks in it. -/
theorem not_mem_marks_of_mem_decimal {n : Int} {c : Char} (h : c ∈ (decimal n).toList) :
    c ∉ Table.marks := by
  have hdigits : ∀ c ∈ Table.marks, (!isDecimalDigit c) = true := List.all_eq_true.1 (by decide)
  rcases mem_decimal h with rfl | h
  · decide
  · intro hmark
    have hnot := hdigits c hmark
    rw [h] at hnot
    cases hnot

/-- The decimal text of an integer is a whole number, if it is not too long. -/
theorem isWhole_decimal {n : Int} (h : hasDecimal n = true) :
    Table.isWhole (decimal n).toList = true := by
  have hsigned : (Table.signed (decimal n).toList).2 = decimalDigits n.natAbs := by
    rw [toList_decimal]
    by_cases hneg : n < 0
    · rw [if_pos hneg]
      rfl
    · rw [if_neg hneg, List.nil_append]
      obtain ⟨c, rest, hcons⟩ := List.exists_cons_of_ne_nil (decimalDigits_ne_nil n.natAbs)
      have hdigit : isDecimalDigit c = true := isDecimalDigit_of_mem (hcons ▸ List.mem_cons_self)
      rw [hcons, Table.signed_of_ne]
      rintro rfl
      cases hdigit
  simp only [Table.isWhole, hsigned, Bool.and_eq_true, decide_eq_true_eq, List.all_eq_true,
    Bool.not_eq_true', List.isEmpty_eq_false_iff]
  exact ⟨⟨decimalDigits_ne_nil _, fun c => isDecimalDigit_of_mem⟩, length_decimalDigits h⟩

end Radix

namespace Literal

/-- A hexadecimal text is a sign, zeros and the digits of the number. -/
theorem toList_hexText (value : Int) (digits : Nat) :
    ∃ zeros, (hexText value digits).toList = (if value < 0 then ['-'] else []) ++
      List.replicate zeros '0' ++ (Radix.digits 16 value.natAbs).map Radix.digitChar := by
  simp only [hexText]
  split
  · rw [String.toList_ofList]
    exact ⟨_, rfl⟩
  · rw [String.toList_ofList]
    exact ⟨_, rfl⟩

theorem hexText_ne_nil (value : Int) (digits : Nat) : (hexText value digits).toList ≠ [] := by
  obtain ⟨zeros, htext⟩ := toList_hexText value digits
  rw [htext]
  exact List.append_ne_nil_of_right_ne_nil _ (by simpa using Radix.digits_ne_nil 16 _)

/-- The hexadecimal text of a number has no marks in it. -/
theorem not_mem_marks_of_mem_hexText {value : Int} {digits : Nat} {c : Char}
    (h : c ∈ (hexText value digits).toList) : c ∉ Table.marks := by
  obtain ⟨zeros, htext⟩ := toList_hexText value digits
  rw [htext, List.mem_append, List.mem_append] at h
  rcases h with (h | h) | h
  · split at h
    · rw [List.mem_singleton.1 h]
      decide
    · cases h
  · rw [List.eq_of_mem_replicate h]
    decide
  · obtain ⟨d, hd, rfl⟩ := List.mem_map.1 h
    exact Radix.digitChar_not_mem_marks (Radix.lt_of_mem_digits (by decide) hd)

end Literal

/-! ## The words of a record -/

/-- Whether the words of a record are a cell of a table. -/
structure Record.Plain (record : Record) : Prop where
  tidy : Table.Tidy record.text.toList
  mark : 'e' ∉ record.text.toList

/-- The words of a record are hexadecimal digits with single blanks between them. -/
theorem Record.lasting_plain : Record.Lasting Record.Plain := by
  constructor
  · intro record _ htext
    have hnil : record.text.toList = [] := by rw [htext]; rfl
    refine ⟨?_, ?_⟩ <;> rw [hnil]
    · exact .of_marks (List.forall_mem_nil _)
    · exact List.not_mem_nil
  · intro record image _ hplain
    rw [shownIn]
    split
    · exact hplain
    · have hwords : ∀ word ∈ (Hex.texts image.width (record.wordsIn image)).map String.toList,
          word ≠ [] ∧ ∀ c ∈ word, c ∉ Table.marks := by
        rw [Hex.texts, List.map_map]
        refine List.forall_mem_map.2 fun word _ => ⟨Literal.hexText_ne_nil _ _, fun c hc => ?_⟩
        exact Literal.not_mem_marks_of_mem_hexText hc
      refine ⟨?_, ?_⟩ <;> simp only [String.toList_intercalate]
      · exact .intercalate (fun word hword => (hwords word hword).1)
          fun word hword => (hwords word hword).2
      · intro hmark
        rcases Table.mem_of_mem_intercalate hmark with hmark | ⟨word, hword, hmark⟩
        · exact absurd (List.mem_singleton.1 hmark) (by decide)
        · exact (hwords word hword).2 'e' hmark (by decide)

/-! ## Rows -/

/-- A bounded step over a list is bounded by what bounds it on the members. -/
theorem Bounded.mapM {α β : Type} {f : α → Except Fault β} {within : α → Prop} {xs : List α}
    (h : ∀ x ∈ xs, Bounded (f x) (within x)) : Bounded (xs.mapM f) (∀ x ∈ xs, within x) := by
  refine ⟨fun hall => exists_mapM_iff.2 fun x hx => (h x hx).ok (hall x hx), fun hnot => ?_⟩
  rcases hresult : xs.mapM f with fault | ys
  · obtain ⟨x, hx, hfault⟩ := exists_of_mapM_error hresult
    exact ⟨fault, rfl, (h x hx).isTooLarge_of_error hfault⟩
  · exact absurd (fun x hx => (h x hx).ok_iff.1 (exists_mapM_iff.1 ⟨ys, hresult⟩ x hx)) hnot

/-- The address of a record in a listing. -/
def Record.address (width : Int) (record : Record) : String :=
  Literal.hexText record.offset (max 4 (Literal.hexDigits width))

/-- The cells of a record as they are. -/
def Record.cells (width : Int) (record : Record) : List String :=
  [Radix.decimal record.line, record.address width, Radix.decimal record.nbits, record.text]

/-! ## Listings -/

namespace Report

/-- The text of a listing. -/
def tableOf (style : Table.Style) (a : Assembler) : String :=
  "\n".intercalate
    (style.write listingHeaders (a.records.toList.map (Record.cells a.width))) ++ "\n"

/-- A column of a listing, which has a cell for each record. -/
def column (a : Assembler) (cell : Record → String) : List (List Char) :=
  a.records.toList.map fun record => (cell record).toList

/-- What a column of a listing shows of a record: its cell, which is written as a real in a column
of reals. -/
def shown (style : Table.Style) (a : Assembler) (cell : Record → String) (record : Record) :
    String :=
  .ofList (style.shown (column a cell) (cell record).toList)

/-- What can be read from a listing of an assembler. -/
structure Lists (style : Table.Style) (a : Assembler) (text : String) : Prop where
  /-- There is a row for each record.  Its line and its bits are shown as they are. -/
  rows : style.read text = a.records.toList.map fun record =>
    [Radix.decimal record.line, shown style a (Record.address a.width) record,
      Radix.decimal record.nbits, shown style a Record.text record]
  /-- The records are shown as they are exactly if neither the addresses nor the words are a column
  of reals. -/
  verbatim : style.read text = a.records.toList.map (Record.cells a.width) ↔
    style.isReal (column a (Record.address a.width)) = false ∧
      style.isReal (column a Record.text) = false
  /-- The addresses are a column of reals exactly if they all look like decimal numbers, and not all
  of them like whole ones. -/
  addresses : style.isReal (column a (Record.address a.width)) = true ↔
    (∀ cell ∈ column a (Record.address a.width),
      Table.isWhole cell = true ∨ Table.isNumber cell = true) ∧
      ∃ cell ∈ column a (Record.address a.width), Table.isWhole cell = false
  /-- So are the words, if each record has some. -/
  words : (∀ record ∈ a.records.toList, record.text ≠ "") →
    (style.isReal (column a Record.text) = true ↔
      (∀ cell ∈ column a Record.text, Table.isWhole cell = true ∨ Table.isNumber cell = true) ∧
        ∃ cell ∈ column a Record.text, Table.isWhole cell = false)

section Columns

variable {style : Table.Style} {a : Assembler} {cell : Record → String}

/-- Numbers are shown as they are. -/
theorem shown_decimal (hstyle : style.Lawful) {number : Record → Int}
    (h : ∀ record ∈ a.records.toList, Radix.hasDecimal (number record) = true) (record : Record) :
    shown style a (fun record => Radix.decimal (number record)) record =
      Radix.decimal (number record) := by
  have hwhole : style.isReal (column a fun record => Radix.decimal (number record)) = false :=
    hstyle.isReal_eq_false (List.forall_mem_map.2 fun record hrecord =>
      Radix.isWhole_decimal (h record hrecord))
  rw [shown, Table.Style.shown_of_isReal_eq_false hwhole, String.ofList_toList]

/-- A column shows all records as they are exactly if it is none of reals. -/
theorem forall_shown_eq_iff (hstyle : style.Lawful)
    (hmark : ∀ record ∈ a.records.toList, 'e' ∉ (cell record).toList) :
    (∀ record ∈ a.records.toList, shown style a cell record = cell record) ↔
      style.isReal (column a cell) = false := by
  have hcells : (column a cell).map (style.shown (column a cell)) = column a cell ↔
      ∀ record ∈ a.records.toList, shown style a cell record = cell record := by
    generalize hwritten : style.shown (column a cell) = written
    rw [column, List.map_map, List.map_inj_left]
    refine forall₂_congr fun record _ => ?_
    rw [shown, hwritten, Function.comp_apply, ← String.toList_inj, String.toList_ofList]
  rw [← hcells]
  exact hstyle.map_shown_eq_iff (List.forall_mem_map.2 hmark)

/-- All cells of a listing are tidy. -/
theorem tidy_cells (hplain : ∀ record ∈ a.records.toList, record.Plain) (j : Nat) :
    ∀ cell ∈ Table.column (a.records.toList.map (Record.cells a.width)) j, Table.Tidy cell := by
  rw [Table.column, List.map_map]
  refine List.forall_mem_map.2 fun record hrecord => ?_
  have hdecimal : ∀ n : Int, Table.Tidy (Radix.decimal n).toList := fun n =>
    .of_marks fun c => Radix.not_mem_marks_of_mem_decimal
  rcases j with _ | _ | _ | _ | j
  · exact hdecimal record.line
  · exact .of_marks fun c => Literal.not_mem_marks_of_mem_hexText
  · exact hdecimal record.nbits
  · exact (hplain record hrecord).tidy
  · exact .of_marks (List.forall_mem_nil _)

end Columns

end Report

/-! ## Room -/

theorem natCast_max_four (n : Nat) : max 4 (n : Int) = ((max 4 n : Nat) : Int) := by
  omega

section

variable [Machine]

/-- Whether a record can be listed: there is room for its address, and its numbers have a decimal
text. -/
@[mk_iff]
structure Record.Listable (width : Int) (record : Record) : Prop where
  address : (record.address width).length ≤ Machine.text
  line : Radix.hasDecimal record.line = true
  nbits : Radix.hasDecimal record.nbits = true

instance (width : Int) (record : Record) : Decidable (record.Listable width) :=
  decidable_of_iff _ (record.listable_iff width).symm

namespace Report

variable {width : Int} {record : Record}

/-- The row of a record can be written unless it is too long. -/
theorem bounded_listingRow : Bounded (listingRow width record) (record.Listable width) := by
  have haddress : Bounded (Hex.field record.offset (max 4 (Literal.hexDigits width)))
      ((record.address width).length ≤ Machine.text) := by
    rw [natCast_max_four]
    exact Hex.bounded_field _ _
  have hnumbers : ∀ address : String, Bounded
      (if [record.line, record.nbits].all Radix.hasDecimal then
        .ok [Radix.decimal record.line, address, Radix.decimal record.nbits, record.text]
      else .error .decimalTooLong)
      (Radix.hasDecimal record.line = true ∧ Radix.hasDecimal record.nbits = true) := by
    intro address
    have hall : [record.line, record.nbits].all Radix.hasDecimal = true ↔
        Radix.hasDecimal record.line = true ∧ Radix.hasDecimal record.nbits = true := by simp
    split
    · exact .of_ok rfl (hall.1 ‹_›)
    · exact .of_error rfl rfl fun h => absurd (hall.2 h) ‹_›
  exact (Bounded.bind haddress fun address _ => hnumbers address).congr
    (record.listable_iff width).symm

/-- The row of a record has the cells of the record. -/
theorem listingRow_eq_ok {cells : List String} (h : listingRow width record = .ok cells) :
    cells = record.cells width := by
  obtain ⟨address, haddress, hrow⟩ := exists_of_bind_eq_ok h
  rw [natCast_max_four] at haddress
  obtain rfl := Hex.field_eq_ok haddress
  split at hrow
  · exact (Except.ok.inj hrow).symm
  · cases hrow

theorem rows_eq_of_mapM {records : List Record} {rows : List (List String)}
    (h : records.mapM (listingRow width) = .ok rows) : rows = records.map (Record.cells width) := by
  have hmap := map_eq_of_mapM (fun _ _ => listingRow_eq_ok) h
  rwa [List.map_id'] at hmap

/-- Whether a program can be listed: all of its records can, and there is room for the text. -/
@[mk_iff]
structure Listable (style : Table.Style) (a : Assembler) : Prop where
  records : ∀ record ∈ a.records.toList, record.Listable a.width
  text : (tableOf style a).length ≤ Machine.text

instance (style : Table.Style) (a : Assembler) : Decidable (Listable style a) :=
  decidable_of_iff _ (listable_iff style a).symm

section Texts

variable {style : Table.Style} {a : Assembler} {text : String}

/-- The listing of a program can be written unless it is too long. -/
theorem bounded_listingBy (style : Table.Style) (a : Assembler) :
    Bounded (listingBy style.write a) (Listable style a) := by
  refine (Bounded.bind (Bounded.mapM fun _ _ => bounded_listingRow) fun rows hrows => ?_).congr
    (listable_iff style a).symm
  obtain rfl := rows_eq_of_mapM hrows
  exact Capacity.bounded_holdText _

/-- The listing of a program is the table of its records. -/
theorem listingBy_eq_ok (h : listingBy style.write a = .ok text) : text = tableOf style a := by
  obtain ⟨rows, hrows, htext⟩ := exists_of_bind_eq_ok h
  obtain rfl := rows_eq_of_mapM hrows
  exact (Capacity.holdText_eq_ok.1 htext).2

/-- The rows of a listing. -/
theorem read_listingBy (hstyle : style.Lawful) (hplain : ∀ record ∈ a.records.toList, record.Plain)
    (h : listingBy style.write a = .ok text) :
    style.read text = a.records.toList.map fun record =>
      [Radix.decimal record.line, shown style a (Record.address a.width) record,
        Radix.decimal record.nbits, shown style a Record.text record] := by
  have hlistable := ((bounded_listingBy style a).ok_iff.1 ⟨text, h⟩).records
  have hheaders : ∀ header ∈ listingHeaders, '\n' ∉ header.toList := by decide
  rw [listingBy_eq_ok h, tableOf, hstyle.read_write listingHeaders _
    (List.cons_ne_nil _ _) hheaders (tidy_cells hplain), List.map_map]
  refine List.map_congr_left fun record _ => ?_
  -- Numbers too are what their columns show, so all four columns are compared alike.
  rw [← shown_decimal hstyle (fun record hrecord => (hlistable record hrecord).line),
    ← shown_decimal hstyle (fun record hrecord => (hlistable record hrecord).nbits)]
  simp only [shown, column, Table.column, List.map_map]
  rfl

/-- The rows of a listing are the records as they are, if their columns are. -/
theorem read_listingBy_eq_iff (hstyle : style.Lawful)
    (hplain : ∀ record ∈ a.records.toList, record.Plain)
    (h : listingBy style.write a = .ok text) :
    style.read text = a.records.toList.map (Record.cells a.width) ↔
      style.isReal (column a (Record.address a.width)) = false ∧
        style.isReal (column a Record.text) = false := by
  have haddress : ∀ record ∈ a.records.toList, 'e' ∉ (record.address a.width).toList :=
    fun record _ hmark => Literal.not_mem_marks_of_mem_hexText hmark (by decide)
  rw [← forall_shown_eq_iff hstyle haddress,
    ← forall_shown_eq_iff hstyle fun record hrecord => (hplain record hrecord).mark,
    ← forall₂_and, read_listingBy hstyle hplain h, List.map_inj_left]
  refine forall₂_congr fun record _ => ?_
  simp only [Record.cells, List.cons.injEq, true_and, and_true]

end Texts

end Report

end

end Retarget
