import Retarget.Proofs.Reals

/-!
# Reading a table

A table can be read again: its rows follow the header and the rule, the cells of a row stand between
bars, and the blanks around a cell only fill its column (`Table.read`).  What is read is what was
put in (`Table.read_lines`), but for a column in which every cell that is not empty is a number and
one of them is not whole: there each cell is written anew as a real (`Table.shown`).

Tables between bars are one way to write tables.  What is expected of any of them
(`Table.Style.Lawful`) is that the cells can be read again, which columns are taken for reals, and
that a real is written otherwise than it was spelled.  Then a column comes out as it was put in
exactly if it is none of reals (`Table.Style.Lawful.map_shown_eq_iff`).
-/

namespace Retarget

namespace Table

/-! ## Rows -/

/-- A cell without the blanks around it. -/
def strip (cell : List Char) : List Char :=
  (cell.dropWhile (· == ' ')).rdropWhile (· == ' ')

/-- The cells of a row: what stands between its bars, without the blanks around it. -/
def cellsOf (line : List Char) : List (List Char) :=
  (line.splitOn '|').tail.dropLast.map strip

/-- The cells of the rows of a table, which follow the header and the rule. -/
def read (text : String) : List (List String) :=
  ((text.toList.splitOn '\n').drop 2).dropLast.map fun line => (cellsOf line).map String.ofList

/-- Blanks in front of a cell are not part of it. -/
theorem strip_blanks_append {blanks : List Char} (h : ∀ c ∈ blanks, c = ' ') (cell : List Char) :
    strip (blanks ++ cell) = strip cell := by
  rw [strip, List.dropWhile_append_of_pos fun c hc => beq_iff_eq.2 (h c hc), strip]

/-- Blanks behind a cell are not part of it. -/
theorem strip_append_blanks {blanks : List Char} (h : ∀ c ∈ blanks, c = ' ') (cell : List Char) :
    strip (cell ++ blanks) = strip cell := by
  have hblanks : ∀ c ∈ blanks, (c == ' ') = true := fun c hc => beq_iff_eq.2 (h c hc)
  rw [strip, strip, List.dropWhile_append]
  by_cases hcell : (cell.dropWhile (· == ' ')).isEmpty = true
  · rw [if_pos hcell, List.isEmpty_iff.1 hcell, List.dropWhile_eq_nil_iff.2 hblanks]
  · have hreverse : ∀ c ∈ blanks.reverse, (c == ' ') = true :=
      fun c hc => hblanks c (List.mem_reverse.1 hc)
    rw [if_neg hcell, List.rdropWhile, List.reverse_append, List.dropWhile_append_of_pos hreverse,
      List.rdropWhile]

/-- A cell that neither starts nor ends with a blank is left alone. -/
theorem strip_eq_self {cell : List Char} (hhead : ∀ c ∈ cell.head?, c ≠ ' ')
    (hlast : ∀ c ∈ cell.getLast?, c ≠ ' ') : strip cell = cell := by
  have hfront : cell.dropWhile (· == ' ') = cell := by
    cases cell with
    | nil => rfl
    | cons c rest => exact List.dropWhile_cons_of_neg (by simpa using hhead c rfl)
  rw [strip, hfront, List.rdropWhile_eq_self_iff]
  intro hne
  simpa using hlast _ (List.getLast?_eq_some_getLast hne)

/-- What is in joined parts is in the separator or in a part. -/
theorem mem_of_mem_intercalate {sep : List Char} {parts : List (List Char)} {c : Char}
    (h : c ∈ sep.intercalate parts) : c ∈ sep ∨ ∃ part ∈ parts, c ∈ part := by
  induction parts with
  | nil => cases h
  | cons part rest ih =>
    rcases rest with _ | ⟨next, rest⟩
    · rw [List.intercalate_singleton] at h
      exact .inr ⟨part, List.mem_cons_self, h⟩
    · rw [List.intercalate_cons_cons, List.mem_append, List.mem_append] at h
      rcases h with (h | h) | h
      · exact .inr ⟨part, List.mem_cons_self, h⟩
      · exact .inl h
      · rcases ih h with h | ⟨other, hother, h⟩
        · exact .inl h
        · exact .inr ⟨other, List.mem_cons_of_mem _ hother, h⟩

/-- A list with a separator behind it ends with nothing behind the last separator. -/
theorem intercalate_concat_nil {sep : List Char} {parts : List (List Char)} (h : parts ≠ []) :
    sep.intercalate (parts ++ [[]]) = sep.intercalate parts ++ sep := by
  induction parts with
  | nil => exact absurd rfl h
  | cons part rest ih =>
    rcases rest with _ | ⟨next, rest⟩
    · rw [List.singleton_append, List.intercalate_cons_cons, List.intercalate_singleton,
        List.intercalate_singleton, List.append_nil]
    · rw [List.cons_append, List.cons_append, List.intercalate_cons_cons, ← List.cons_append,
        ih (List.cons_ne_nil _ _), List.intercalate_cons_cons, List.append_assoc, List.append_assoc,
        List.append_assoc]

/-- A row is what stands between bars, with nothing in front of the first and behind the last. -/
theorem row_eq_intercalate {cells : List (List Char)} (h : cells ≠ []) :
    row cells = ['|'].intercalate
      ([] :: cells.map (fun cell => [' '] ++ cell ++ [' ']) ++ [[]]) := by
  -- Of the two blanks around a bar, one goes to the cell before it and one to the cell behind it.
  have hcells : [' '] ++ [' ', '|', ' '].intercalate cells ++ [' '] =
      ['|'].intercalate (cells.map fun cell => [' '] ++ cell ++ [' ']) := by
    induction cells with
    | nil => exact absurd rfl h
    | cons cell rest ih =>
      rcases rest with _ | ⟨next, rest⟩
      · rw [List.map_singleton, List.intercalate_singleton, List.intercalate_singleton]
      · have hmap : (next :: rest).map (fun cell => [' '] ++ cell ++ [' ']) ≠ [] :=
          List.cons_ne_nil _ _
        rw [List.map_cons, List.intercalate_cons_cons, List.intercalate_cons_of_ne_nil hmap,
          ← ih (List.cons_ne_nil _ _)]
        simp only [List.append_assoc, List.cons_append, List.nil_append]
  have hmap : cells.map (fun cell => [' '] ++ cell ++ [' ']) ≠ [] := by simpa using h
  rw [intercalate_concat_nil (List.cons_ne_nil _ _), List.intercalate_cons_of_ne_nil hmap, ← hcells,
    row]
  simp only [List.append_assoc, List.cons_append, List.nil_append]

/-- The cells of a row are read back up to blanks, if no bar is in them. -/
theorem cellsOf_row {cells : List (List Char)} (h : cells ≠ [])
    (hbars : ∀ cell ∈ cells, '|' ∉ cell) : cellsOf (row cells) = cells.map strip := by
  have hparts : ∀ part ∈ [] :: cells.map (fun cell => [' '] ++ cell ++ [' ']) ++ [[]],
      '|' ∉ part := by
    intro part hpart
    simp only [List.cons_append, List.mem_cons, List.mem_append, List.mem_map, List.not_mem_nil,
      or_false] at hpart
    rcases hpart with rfl | ⟨cell, hcell, rfl⟩ | rfl
    · exact List.not_mem_nil
    · simpa using hbars cell hcell
    · exact List.not_mem_nil
  have hblank : ∀ c ∈ [' '], c = ' ' := fun c => List.mem_singleton.1
  rw [cellsOf, row_eq_intercalate h, List.splitOn_intercalate '|' hparts (by simp),
    List.cons_append, List.tail_cons, List.dropLast_concat, List.map_map]
  refine List.map_congr_left fun cell _ => ?_
  exact (strip_append_blanks hblank _).trans (strip_blanks_append hblank cell)

/-- A row has bars, blanks and what its cells have. -/
theorem mem_of_mem_row {cells : List (List Char)} {c : Char} (h : c ∈ row cells) :
    c = '|' ∨ c = ' ' ∨ ∃ cell ∈ cells, c ∈ cell := by
  rw [row, List.mem_append, List.mem_append] at h
  rcases h with (h | h) | h
  · simp only [List.mem_cons, List.not_mem_nil, or_false] at h
    exact h.imp_right .inl
  · rcases mem_of_mem_intercalate h with h | h
    · simp only [List.mem_cons, List.not_mem_nil, or_false] at h
      rcases h with h | h | h
      · exact .inr (.inl h)
      · exact .inl h
      · exact .inr (.inl h)
    · exact .inr (.inr h)
  · simp only [List.mem_cons, List.not_mem_nil, or_false] at h
    exact h.elim (fun h => .inr (.inl h)) .inl

/-! ## Columns -/

/-- How a cell is written in a column of a kind, blanks aside. -/
def shown (kind : Kind) (cell : List Char) : List Char :=
  match kind with
  | .real => realCell cell
  | _ => cell

theorem shown_nil (kind : Kind) : shown kind [] = [] := by
  cases kind <;> rfl

/-- Whether a text is a cell with blanks around it. -/
def Padded (cell text : List Char) : Prop :=
  ∃ before after, text = List.replicate before ' ' ++ cell ++ List.replicate after ' '

namespace Padded

variable {cell text : List Char}

theorem refl (cell : List Char) : Padded cell cell :=
  ⟨0, 0, (List.append_nil _).symm⟩

theorem append (h : Padded cell text) (n : Nat) : Padded cell (text ++ List.replicate n ' ') := by
  obtain ⟨before, after, rfl⟩ := h
  exact ⟨before, after + n, by rw [List.append_assoc, List.replicate_append_replicate]⟩

/-- Filling a cell up to a width pads it. -/
theorem fill (h : Padded cell text) (kind : Kind) (width : Nat) :
    Padded cell (Table.fill kind width text) := by
  have hfront : Padded cell (List.replicate (width - text.length) ' ' ++ text) := by
    generalize width - text.length = gap
    obtain ⟨before, after, rfl⟩ := h
    refine ⟨gap + before, after, ?_⟩
    rw [← List.replicate_append_replicate, List.append_assoc, List.append_assoc, List.append_assoc]
  cases kind with
  | text => exact h.append _
  | whole => exact hfront
  | real => exact hfront

/-- Padding is not seen when the blanks are stripped. -/
theorem strip_eq (h : Padded cell text) : strip text = strip cell := by
  obtain ⟨before, after, rfl⟩ := h
  have hblank : ∀ n, ∀ c ∈ List.replicate n ' ', c = ' ' := fun _ _ => List.eq_of_mem_replicate
  rw [strip_append_blanks (hblank after), strip_blanks_append (hblank before)]

theorem mem (h : Padded cell text) {c : Char} (hc : c ∈ text) : c = ' ' ∨ c ∈ cell := by
  obtain ⟨before, after, rfl⟩ := h
  rw [List.mem_append, List.mem_append] at hc
  rcases hc with (hc | hc) | hc
  · exact .inl (List.eq_of_mem_replicate hc)
  · exact .inr hc
  · exact .inl (List.eq_of_mem_replicate hc)

end Padded

theorem padded_header (header : String) (cells : List (List Char)) :
    Padded header.toList (setColumn header cells).header :=
  (Padded.refl _).fill _ _

theorem padded_map_fill {cell : List Char} {written : List (List Char)} {i : Nat}
    (h : Padded cell (written[i]?.getD [])) (kind : Kind) (width : Nat) :
    Padded cell ((written.map (fill kind width))[i]?.getD []) := by
  rw [List.getElem?_map]
  cases hwritten : written[i]? with
  | none => rwa [hwritten] at h
  | some text =>
    rw [hwritten] at h
    exact h.fill kind width

/-- Aligning the points of a column pads its cells. -/
theorem padded_alignPoints (cells : List (List Char)) (i : Nat) :
    Padded (cells[i]?.getD []) ((alignPoints cells)[i]?.getD []) := by
  rw [alignPoints, List.getElem?_map]
  cases cells[i]? with
  | none => exact .refl []
  | some cell => exact (Padded.refl cell).append _

/-- The cells of a column are set with blanks around them. -/
theorem padded_setColumn (header : String) (cells : List (List Char)) (i : Nat) :
    Padded (shown (kindOf cells) (cells[i]?.getD []))
      ((setColumn header cells).cells[i]?.getD []) := by
  rw [setColumn]
  refine padded_map_fill ?_ _ _
  cases kindOf cells with
  | text => exact .refl _
  | whole => exact padded_alignPoints cells i
  | real =>
    have hreal : (cells.map realCell)[i]?.getD [] = realCell (cells[i]?.getD []) := by
      rw [List.getElem?_map]
      cases cells[i]? <;> rfl
    have hpadded := padded_alignPoints (cells.map realCell) i
    rwa [hreal] at hpadded

/-! ## Tables -/

/-- Whether a cell can be read again: no blanks are around it, and neither a bar nor a line break is
in it. -/
structure Tidy (cell : List Char) : Prop where
  stripped : strip cell = cell
  bar : '|' ∉ cell
  line : '\n' ∉ cell

/-- The cells of a column of a table. -/
def column (rows : List (List String)) (j : Nat) : List (List Char) :=
  rows.map fun cells => (cells[j]?.getD "").toList

/-- The columns of a table, set. -/
def columns (headers : List String) (rows : List (List String)) : List Column :=
  headers.mapIdx fun j header => setColumn header (column rows j)

/-- The lines of a table as lists of characters. -/
def charLines (headers : List String) (rows : List (List String)) : List (List Char) :=
  row ((columns headers rows).map Column.header) :: rule (columns headers rows) ::
    (List.range rows.length).map fun i => row (cellsAt (columns headers rows) i)

theorem lines_eq (headers : List String) (rows : List (List String)) :
    lines headers rows = (charLines headers rows).map String.ofList := rfl

section Lines

variable {headers : List String} {rows : List (List String)}

/-- A column has the cells at its place in the rows. -/
theorem getElem?_column (rows : List (List String)) (i j : Nat) :
    (column rows j)[i]?.getD [] = ((rows[i]?.getD [])[j]?.getD "").toList := by
  rw [column, List.getElem?_map]
  cases rows[i]? with
  | none => rfl
  | some cells => rfl

/-- A written row shows the cells of the row. -/
theorem map_strip_cellsAt
    (htidy : ∀ j, ∀ cell ∈ column rows j, Tidy (shown (kindOf (column rows j)) cell)) (i : Nat) :
    (cellsAt (columns headers rows) i).map strip = headers.mapIdx fun j _ =>
      shown (kindOf (column rows j)) ((column rows j)[i]?.getD []) := by
  refine List.ext_getElem (by simp [cellsAt, columns]) fun j hj hj' => ?_
  simp only [cellsAt, columns, List.getElem_map, List.getElem_mapIdx,
    (padded_setColumn _ _ _).strip_eq]
  cases hcell : (column rows j)[i]? with
  | none =>
    rw [Option.getD_none, shown_nil]
    rfl
  | some cell => exact (htidy j cell (List.mem_of_getElem? hcell)).stripped

/-- A written row has no characters that the cells do not show. -/
theorem not_mem_cellsAt {c : Char} (hc : c ≠ ' ')
    (h : ∀ j, ∀ cell ∈ column rows j, c ∉ shown (kindOf (column rows j)) cell) (i : Nat) :
    ∀ cell ∈ cellsAt (columns headers rows) i, c ∉ cell := by
  intro cell hcell hmem
  obtain ⟨col, hcol, rfl⟩ := List.mem_map.1 hcell
  obtain ⟨j, hj, rfl⟩ := List.mem_mapIdx.1 hcol
  rcases (padded_setColumn _ _ _).mem hmem with hblank | hshown
  · exact hc hblank
  · cases hcell : (column rows j)[i]? with
    | none =>
      rw [hcell, Option.getD_none, shown_nil] at hshown
      cases hshown
    | some cell =>
      rw [hcell] at hshown
      exact h j cell (List.mem_of_getElem? hcell) hshown

theorem not_mem_rule {columns : List Column} : '\n' ∉ rule columns := by
  intro h
  rw [rule, List.mem_append, List.mem_append] at h
  rcases h with (h | h) | h
  · cases List.mem_singleton.1 h
  · rcases mem_of_mem_intercalate h with h | ⟨part, hpart, h⟩
    · cases List.mem_singleton.1 h
    · obtain ⟨column, -, rfl⟩ := List.mem_map.1 hpart
      cases List.eq_of_mem_replicate h
  · cases List.mem_singleton.1 h

theorem not_mem_headers (hlines : ∀ header ∈ headers, '\n' ∉ header.toList) :
    '\n' ∉ row ((columns headers rows).map Column.header) := by
  intro h
  rcases mem_of_mem_row h with h | h | ⟨cell, hcell, h⟩
  · cases h
  · cases h
  · obtain ⟨column, hcolumn, rfl⟩ := List.mem_map.1 hcell
    obtain ⟨j, hj, rfl⟩ := List.mem_mapIdx.1 hcolumn
    rcases (padded_header _ _).mem h with h | h
    · cases h
    · exact hlines _ (List.getElem_mem hj) h

/-- The lines of a table are lines. -/
theorem not_mem_charLines (hlines : ∀ header ∈ headers, '\n' ∉ header.toList)
    (htidy : ∀ j, ∀ cell ∈ column rows j, Tidy (shown (kindOf (column rows j)) cell)) :
    ∀ line ∈ charLines headers rows, '\n' ∉ line := by
  intro line hline
  simp only [charLines, List.mem_cons, List.mem_map] at hline
  rcases hline with rfl | rfl | ⟨i, -, rfl⟩
  · exact not_mem_headers hlines
  · exact not_mem_rule
  · intro h
    rcases mem_of_mem_row h with h | h | ⟨cell, hcell, h⟩
    · cases h
    · cases h
    · exact not_mem_cellsAt (by decide) (fun j cell hcell => (htidy j cell hcell).line) i cell
        hcell h

/-- Cutting the text of a table gives its lines, and nothing behind the last line break. -/
theorem splitOn_lines (hbreaks : ∀ line ∈ charLines headers rows, '\n' ∉ line) :
    ("\n".intercalate (lines headers rows) ++ "\n").toList.splitOn '\n' =
      charLines headers rows ++ [[]] := by
  have htext : ("\n".intercalate (lines headers rows) ++ "\n").toList =
      ['\n'].intercalate (charLines headers rows ++ [[]]) := by
    have hid : String.toList ∘ String.ofList = id := funext fun _ => String.toList_ofList
    have hne : charLines headers rows ≠ [] := List.cons_ne_nil _ _
    rw [intercalate_concat_nil hne, String.toList_append,
      String.toList_intercalate, lines_eq, List.map_map, hid, List.map_id]
    rfl
  rw [htext]
  refine List.splitOn_intercalate '\n' ?_ (by simp)
  rw [List.forall_mem_append, List.forall_mem_singleton]
  exact ⟨hbreaks, List.not_mem_nil⟩

/-- **What is read from a table is what was put in**, but for columns of reals. -/
theorem read_lines (hheaders : headers ≠ []) (hlines : ∀ header ∈ headers, '\n' ∉ header.toList)
    (htidy : ∀ j, ∀ cell ∈ column rows j, Tidy (shown (kindOf (column rows j)) cell)) :
    read ("\n".intercalate (lines headers rows) ++ "\n") = rows.map fun cells =>
      headers.mapIdx fun j _ =>
        String.ofList (shown (kindOf (column rows j)) (cells[j]?.getD "").toList) := by
  have hbody : read ("\n".intercalate (lines headers rows) ++ "\n") =
      (List.range rows.length).map fun i =>
        (cellsOf (row (cellsAt (columns headers rows) i))).map String.ofList := by
    rw [read, splitOn_lines (not_mem_charLines hlines htidy)]
    show ((List.map _ _ ++ [[]]).dropLast).map _ = _
    rw [List.dropLast_concat, List.map_map]
    rfl
  -- Rows are written by their number, so they are compared one by one, and then their cells.
  rw [hbody]
  refine List.ext_getElem (by simp) fun i hi hi' => ?_
  have hrow : i < rows.length := by simpa using hi'
  have hcells : cellsAt (columns headers rows) i ≠ [] := by
    simpa [cellsAt, columns] using hheaders
  have hbar : ∀ cell ∈ cellsAt (columns headers rows) i, '|' ∉ cell :=
    not_mem_cellsAt (by decide) (fun j cell hcell => (htidy j cell hcell).bar) i
  simp only [List.getElem_map, List.getElem_range]
  rw [cellsOf_row hcells hbar, map_strip_cellsAt htidy i]
  refine List.ext_getElem (by simp) fun j hj hj' => ?_
  simp only [List.getElem_map, List.getElem_mapIdx, getElem?_column,
    List.getElem?_eq_getElem hrow, Option.getD_some]

end Lines

/-! ## Columns of reals -/

/-- A cell of characters that neither fill nor separate. -/
theorem Tidy.of_forall {cell : List Char} (h : ∀ c ∈ cell, c ≠ ' ' ∧ c ≠ '|' ∧ c ≠ '\n') :
    Tidy cell := by
  refine ⟨strip_eq_self ?_ ?_, ?_, ?_⟩
  · exact fun c hc => (h c (List.mem_of_head? hc)).1
  · exact fun c hc => (h c (List.mem_of_getLast? hc)).1
  · exact fun hc => (h '|' hc).2.1 rfl
  · exact fun hc => (h '\n' hc).2.2 rfl

/-- A tidy cell is shown as a tidy one. -/
theorem Tidy.shown {cell : List Char} (h : Tidy cell) (kind : Kind) : Tidy (shown kind cell) := by
  cases kind with
  | text => exact h
  | whole => exact h
  | real =>
    show Tidy (realCell cell)
    rw [realCell]
    cases real? cell with
    | none => exact h
    | some x =>
      refine .of_forall fun c hc => ?_
      have hreal := Decimal.isRealChar_briefText x c hc
      refine ⟨?_, ?_, ?_⟩ <;> rintro rfl <;> exact absurd hreal (by decide)

/-- In a column of reals, whatever is not empty is a number, and one of them is not whole. -/
theorem numbers_of_kindOf_eq_real {cells : List (List Char)} (h : kindOf cells = .real) :
    (∀ cell ∈ cells, cell ≠ [] → isWhole cell = true ∨ isNumber cell = true) ∧
      ∃ cell ∈ cells, isWhole cell = false ∧ isNumber cell = true := by
  simp only [kindOf] at h
  split at h
  · cases h
  split at h
  · cases h
  rename_i hwhole
  split at h
  · rename_i hall
    have hnumbers : ∀ cell ∈ cells, cell ≠ [] → isWhole cell = true ∨ isNumber cell = true :=
      fun cell hcell hne => Bool.or_eq_true_iff.1
        (List.all_eq_true.1 hall cell (List.mem_filter.2 ⟨hcell, by simpa using hne⟩))
    obtain ⟨cell, hcell, hne, hnot⟩ : ∃ cell ∈ cells, cell ≠ [] ∧ isWhole cell = false := by
      simpa using hwhole
    refine ⟨hnumbers, cell, hcell, hnot, (hnumbers cell hcell hne).resolve_left ?_⟩
    rw [hnot]
    exact Bool.false_ne_true
  · cases h

/-- A column of numbers is one of reals, if one of them is not whole. -/
theorem kindOf_eq_real {cells : List (List Char)}
    (hnumbers : ∀ cell ∈ cells, isWhole cell = true ∨ isNumber cell = true)
    (hpart : ∃ cell ∈ cells, isWhole cell = false) : kindOf cells = .real := by
  have hfilled : cells.filter (fun cell => !cell.isEmpty) = cells := by
    refine List.filter_eq_self.2 fun cell hcell => ?_
    rcases cell with _ | ⟨c, rest⟩
    · rcases hnumbers [] hcell with h | h <;> cases h
    · rfl
  obtain ⟨part, hmem, hwhole⟩ := hpart
  have hall : (cells.all fun cell => isWhole cell || isNumber cell) = true :=
    List.all_eq_true.2 fun cell hcell => Bool.or_eq_true_iff.2 (hnumbers cell hcell)
  have hnot : cells.all isWhole = false :=
    List.all_eq_false.2 ⟨part, hmem, by rw [hwhole]; exact Bool.false_ne_true⟩
  have hne : cells.isEmpty = false :=
    List.isEmpty_eq_false_iff.2 (List.ne_nil_of_mem hmem)
  simp only [kindOf, hfilled, hne, hnot, hall, Bool.false_eq_true, if_false, if_true]

/-! ## Other ways to write a table -/

/-- A way to write tables: the lines of a table, the cells that are read from them, the columns that
are taken for reals, and how a cell of such a column is written. -/
structure Style where
  write : Writer
  read : String → List (List String)
  isReal : List (List Char) → Bool
  realCell : List Char → List Char

namespace Style

/-- How a cell of a column is written, blanks aside. -/
def shown (style : Style) (cells : List (List Char)) (cell : List Char) : List Char :=
  if style.isReal cells then style.realCell cell else cell

/-- What is expected of a way to write tables. -/
structure Lawful (style : Style) : Prop where
  /-- The cells of a table can be read again, and only those of reals are written anew. -/
  read_write : ∀ headers rows, headers ≠ [] → (∀ header ∈ headers, '\n' ∉ header.toList) →
    (∀ j, ∀ cell ∈ column rows j, Tidy cell) →
    style.read ("\n".intercalate (style.write headers rows) ++ "\n") =
      rows.map fun cells => headers.mapIdx fun j _ =>
        .ofList (style.shown (column rows j) (cells[j]?.getD "").toList)
  /-- A column of numbers is one of reals, if one of them is not whole. -/
  isReal_of_numbers : ∀ cells, (∀ cell ∈ cells, isWhole cell = true ∨ isNumber cell = true) →
    (∃ cell ∈ cells, isWhole cell = false) → style.isReal cells = true
  /-- In a column of reals, whatever is not empty is a number, and one of them is not whole. -/
  numbers_of_isReal : ∀ cells, style.isReal cells = true →
    (∀ cell ∈ cells, cell ≠ [] → isWhole cell = true ∨ isNumber cell = true) ∧
      ∃ cell ∈ cells, isWhole cell = false ∧ isNumber cell = true
  /-- A number that is not whole is not written as it was spelled, unless its exponent has the mark
  that reals have. -/
  realCell_ne : ∀ cell, 'e' ∉ cell → isWhole cell = false → isNumber cell = true →
    style.realCell cell ≠ cell

variable {style : Style} {cells : List (List Char)}

theorem shown_of_isReal_eq_false (h : style.isReal cells = false) (cell : List Char) :
    style.shown cells cell = cell := by
  rw [shown, h, if_neg Bool.false_ne_true]

namespace Lawful

/-- Whole numbers are no reals. -/
theorem isReal_eq_false (hstyle : style.Lawful) (h : ∀ cell ∈ cells, isWhole cell = true) :
    style.isReal cells = false := by
  refine Bool.eq_false_iff.2 fun hreal => ?_
  obtain ⟨cell, hcell, hnot, -⟩ := (hstyle.numbers_of_isReal cells hreal).2
  rw [h cell hcell] at hnot
  cases hnot

/-- The columns of reals among those that are filled. -/
theorem isReal_iff (hstyle : style.Lawful) (hfilled : ∀ cell ∈ cells, cell ≠ []) :
    style.isReal cells = true ↔
      (∀ cell ∈ cells, isWhole cell = true ∨ isNumber cell = true) ∧
        ∃ cell ∈ cells, isWhole cell = false := by
  constructor
  · intro hreal
    obtain ⟨hnumbers, cell, hcell, hwhole, -⟩ := hstyle.numbers_of_isReal cells hreal
    exact ⟨fun cell hcell => hnumbers cell hcell (hfilled cell hcell), cell, hcell, hwhole⟩
  · rintro ⟨hnumbers, hpart⟩
    exact hstyle.isReal_of_numbers cells hnumbers hpart

/-- **A column comes out as it was put in unless it is one of reals.** -/
theorem map_shown_eq_iff (hstyle : style.Lawful) (hmark : ∀ cell ∈ cells, 'e' ∉ cell) :
    cells.map (style.shown cells) = cells ↔ style.isReal cells = false := by
  constructor
  · intro heq
    refine Bool.eq_false_iff.2 fun hreal => ?_
    obtain ⟨cell, hcell, hwhole, hnumber⟩ := (hstyle.numbers_of_isReal cells hreal).2
    have hsame : style.shown cells cell = cell :=
      List.map_inj_left.1 (heq.trans (List.map_id cells).symm) cell hcell
    rw [shown, hreal, if_pos rfl] at hsame
    exact hstyle.realCell_ne cell (hmark cell hcell) hwhole hnumber hsame
  · intro hreal
    have hsame : style.shown cells = id := funext (shown_of_isReal_eq_false hreal)
    rw [hsame, List.map_id]

end Lawful

end Style

/-- Tables between bars. -/
def bars : Style where
  write := lines
  read := read
  isReal cells := kindOf cells == .real
  realCell := realCell

/-- Tables with bars show a cell as its column says. -/
theorem shown_bars (cells : List (List Char)) (cell : List Char) :
    bars.shown cells cell = shown (kindOf cells) cell := by
  show (if (kindOf cells == .real) = true then realCell cell else cell) = _
  cases kindOf cells <;> rfl

/-- **Tables between bars are as expected.** -/
theorem lawful_bars : bars.Lawful where
  read_write headers rows hheaders hlines htidy := by
    simp only [shown_bars]
    exact read_lines hheaders hlines fun j cell hcell => (htidy j cell hcell).shown _
  isReal_of_numbers _ hnumbers hpart := beq_iff_eq.2 (kindOf_eq_real hnumbers hpart)
  numbers_of_isReal _ hreal := numbers_of_kindOf_eq_real (beq_iff_eq.1 hreal)
  realCell_ne _ hmark hwhole hnumber := realCell_ne hmark hwhole hnumber

end Table

end Retarget
