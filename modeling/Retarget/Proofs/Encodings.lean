import Retarget.Proofs.Decoding
import Retarget.Proofs.Grammar

/-!
# Reading the output back

The words of a program are written in two forms that can be read again: as bytes, each word in as
many whole bytes as its width needs, and as lines of hexadecimal digits.  Bytes are read back in
groups, the most significant byte of each first (`unpackWords`), and lines as numbers of base
sixteen.

Bytes keep the bits of a word that its width has, and lines keep all of them.  Where every word is
within the width, both tell the same image as the program has, so that different images never make
the same file (`Report.image_read`).  Either form exists if there is room for it, the bytes only if
a word of that width can be held.
-/

namespace Retarget

/-! ## Bytes -/

/-- Bytes cut into groups of `count`. -/
def byteGroups (count : Nat) (bytes : List UInt8) : List (List UInt8) :=
  (List.range (bytes.length / count)).map fun k => (bytes.drop (k * count)).take count

/-- The number that bytes stand for by their places, of which the first counts most. -/
def bigEndian (bytes : List UInt8) : Nat :=
  Nat.ofDigits 256 (bytes.map UInt8.toNat).reverse

/-- The numbers that stand in bytes, each in `count` of them. -/
def unpackWords (count : Nat) (bytes : List UInt8) : List Nat :=
  (byteGroups count bytes).map bigEndian

section Bytes

variable {count : Nat}

/-- As many bytes as a word has are its group. -/
theorem byteGroups_append (hcount : 0 < count) {first : List UInt8} (hfirst : first.length = count)
    (rest : List UInt8) : byteGroups count (first ++ rest) = first :: byteGroups count rest := by
  rw [byteGroups, byteGroups, List.length_append, hfirst, Nat.add_div_left _ hcount,
    List.range_succ_eq_map, List.map_cons, List.map_map, Nat.zero_mul, List.drop_zero,
    List.take_left' hfirst]
  congr 1
  refine List.map_congr_left fun k _ => ?_
  rw [Function.comp, Nat.succ_mul, Nat.add_comm, ← hfirst, List.drop_length_add_append]

/-- Groups of one length are found again in what they make together. -/
theorem byteGroups_flatMap {α : Type} (hcount : 0 < count) {f : α → List UInt8} {xs : List α}
    (h : ∀ x ∈ xs, (f x).length = count) : byteGroups count (xs.flatMap f) = xs.map f := by
  induction xs with
  | nil => simp [byteGroups]
  | cons x rest ih =>
    obtain ⟨hx, hrest⟩ := List.forall_mem_cons.1 h
    rw [List.flatMap_cons, byteGroups_append hcount hx, ih hrest, List.map_cons]

/-- A word takes as many bytes as it is given. -/
theorem length_wordBytes (count word : Nat) : (wordBytes count word).length = count := by
  rw [wordBytes, List.length_map, splitWords, List.length_map, List.length_range]

/-- A word stands in its bytes, if these have room for its bits. -/
theorem bigEndian_wordBytes {width word : Nat} (h : word < 2 ^ width) :
    bigEndian (wordBytes (wordsFor width 8) word) = word := by
  have hbytes : (wordBytes (wordsFor width 8) word).map UInt8.toNat =
      splitWords 8 (wordsFor width 8) word := by
    rw [wordBytes, List.map_map]
    refine (List.map_congr_left fun byte hbyte => ?_).trans (List.map_id _)
    obtain ⟨k, -, rfl⟩ := List.mem_map.1 hbyte
    exact UInt8.toNat_ofNat_of_lt' (Bits.low_lt 8 _)
  have hvalue : Radix.value (2 ^ 8) (splitWords 8 (wordsFor width 8) word) = word :=
    value_splitWords (by decide) h
  rw [bigEndian, hbytes, ← Radix.value_eq_ofDigits]
  exact hvalue

/-- The bytes of a word are counted by rounding up. -/
theorem max_one_neg_ediv {width : Int} (hwidth : 1 ≤ width) :
    max 1 (-((-width) / 8)).toNat = wordsFor width.toNat 8 := by
  rw [wordsFor]
  omega

variable [Machine]

/-- The low bits of a value can be taken unless they are too many. -/
theorem bounded_lowBits {width : Int} (hwidth : 0 ≤ width) (value : Int) :
    Bounded (lowBits width value) (Capacity.fieldBits width = .ok width.toNat) :=
  (Bounded.bind (Capacity.bounded_fieldBits hwidth) fun _ _ => .of_ok rfl trivial).congr
    (and_iff_left trivial)

variable {width : Int} {words : List Nat} {bytes : List UInt8}

/-- Words can be packed if a word of their width can be held and there is room for all bytes. -/
theorem bounded_packWords (hwidth : 1 ≤ width) (words : List Int) : Bounded (packWords words width)
    ((words = [] ∨ Capacity.fieldBits width = .ok width.toNat) ∧
      words.length * wordsFor width.toNat 8 ≤ Machine.text) := by
  have hcut : Bounded (words.mapM (lowBits width))
      (words = [] ∨ Capacity.fieldBits width = .ok width.toNat) := by
    refine (Bounded.mapM fun word _ => bounded_lowBits (by omega) word).congr ?_
    rcases words with _ | ⟨word, rest⟩
    · simp
    · exact ⟨fun h => .inr (h word List.mem_cons_self),
        fun h _ _ => h.resolve_left (List.cons_ne_nil _ _)⟩
  refine Bounded.bind hcut fun cut hmap => ?_
  rw [max_one_neg_ediv hwidth, ← (forall₂_of_mapM hmap).length_eq]
  exact (Bounded.bind (Capacity.bounded_checkText _) fun _ _ => .of_ok rfl trivial).congr
    (and_iff_left trivial)

/-- Packed words are their low bits, byte by byte. -/
theorem packWords_eq_ok (hwidth : 1 ≤ width)
    (h : packWords (words.map fun (word : Nat) => (word : Int)) width = .ok bytes) :
    bytes = (words.map (· % 2 ^ width.toNat)).flatMap (wordBytes (wordsFor width.toNat 8)) := by
  obtain ⟨cut, hcut, hbytes⟩ := exists_of_bind_eq_ok h
  obtain ⟨_, -, hbytes⟩ := exists_of_bind_eq_ok hbytes
  have hlow : ∀ (word : Int) (y : Nat), lowBits width word = .ok y →
      id y = Bits.low width.toNat word := by
    intro word y hy
    obtain ⟨bits, hbits, hword⟩ := exists_of_bind_eq_ok hy
    obtain ⟨-, rfl⟩ := Capacity.fieldBits_eq_ok hbits
    exact (Except.ok.inj hword).symm
  have hwords : cut = words.map (· % 2 ^ width.toNat) := by
    have hmap := map_eq_of_mapM hlow hcut
    rw [List.map_id, List.map_map] at hmap
    exact hmap.trans (List.map_congr_left fun word _ => Bits.low_natCast _ _)
  rw [← Except.ok.inj hbytes, max_one_neg_ediv hwidth, hwords]

/-- A file of packed words has the same number of bytes for each of them. -/
theorem length_packWords (hwidth : 1 ≤ width)
    (h : packWords (words.map fun (word : Nat) => (word : Int)) width = .ok bytes) :
    bytes.length = words.length * wordsFor width.toNat 8 := by
  rw [packWords_eq_ok hwidth h, List.length_flatMap,
    List.map_congr_left fun word _ => length_wordBytes (wordsFor width.toNat 8) word,
    List.map_const', List.sum_replicate, List.length_map, smul_eq_mul]

/-- **Bytes are read back as the words within the width.** -/
theorem unpackWords_packWords (hwidth : 1 ≤ width)
    (h : packWords (words.map fun (word : Nat) => (word : Int)) width = .ok bytes) :
    unpackWords (wordsFor width.toNat 8) bytes = words.map (· % 2 ^ width.toNat) := by
  have hcount : 0 < wordsFor width.toNat 8 := by
    rw [wordsFor]
    omega
  rw [packWords_eq_ok hwidth h, unpackWords,
    byteGroups_flatMap hcount fun word _ => length_wordBytes _ word, List.map_map]
  refine (List.map_congr_left fun word hword => ?_).trans (List.map_id _)
  obtain ⟨whole, -, rfl⟩ := List.mem_map.1 hword
  exact bigEndian_wordBytes (Nat.mod_lt _ (Nat.two_pow_pos _))

end Bytes

/-! ## Lines -/

/-- The lines of a text in which every line is ended. -/
def linesOf (text : String) : List (List Char) :=
  (text.toList.splitOn '\n').dropLast

/-- Fields that are written line by line are read back. -/
theorem linesOf_join {fields : List String} (h : ∀ field ∈ fields, '\n' ∉ field.toList) :
    linesOf (String.join (fields.map (· ++ "\n"))) = fields.map String.toList := by
  have hjoin : (String.join (fields.map (· ++ "\n"))).toList =
      ['\n'].intercalate (fields.map String.toList ++ [[]]) := by
    rw [String.toList_join]
    clear h
    induction fields with
    | nil => rfl
    | cons field rest ih =>
      have hrest : rest.map String.toList ++ [[]] ≠ [] := by simp
      rw [List.map_cons, List.flatMap_cons, ih, List.map_cons, List.cons_append,
        List.intercalate_cons_of_ne_nil hrest, String.toList_append]
      rfl
  have hbreaks : ∀ line ∈ fields.map String.toList ++ [[]], '\n' ∉ line := by
    intro line hline
    rcases List.mem_append.1 hline with hline | hline
    · obtain ⟨field, hfield, rfl⟩ := List.mem_map.1 hline
      exact h field hfield
    · rw [List.mem_singleton.1 hline]
      exact List.not_mem_nil
  rw [linesOf, hjoin, List.splitOn_intercalate _ hbreaks (by simp), List.dropLast_concat]

namespace Hex

/-- Whether a line shows a word of `width` bits: it has hexadecimal digits with letters in upper
case, as many as the width needs, and more only if the word does, and they stand for the word. -/
structure Shows (width word : Nat) (line : List Char) : Prop where
  digits : ∀ c ∈ line, c ∈ "0123456789ABCDEF".toList
  length_le : wordsFor width 4 ≤ line.length
  length_eq : word < 2 ^ width → line.length = wordsFor width 4
  value : Radix.positional 16 line = word

theorem mem_upperDigits {d : Nat} (h : d < 16) :
    Radix.digitChar d ∈ "0123456789ABCDEF".toList := by
  revert d
  decide

/-- The hexadecimal text of a word shows it in the digits that its width takes. -/
theorem shows_hexText {width word : Nat} (hwidth : 1 ≤ width) :
    Shows width word (Literal.hexText word (wordsFor width 4)).toList := by
  have hpos : 1 ≤ wordsFor width 4 := by
    rw [wordsFor]
    omega
  refine ⟨fun c hc => ?_, ?_, fun hword => ?_, Literal.positional_hexText _ _⟩
  · obtain ⟨d, hd, rfl⟩ := Literal.exists_of_mem_hexText hc
    exact mem_upperDigits hd
  · rw [Literal.length_toList_hexText]
    exact Nat.le_max_left _ _
  · have hlt : word < 16 ^ wordsFor width 4 := by
      calc word < 2 ^ width := hword
        _ ≤ 2 ^ (4 * wordsFor width 4) := by
          refine Nat.pow_le_pow_right (by decide) ?_
          rw [Nat.mul_comm]
          exact le_wordsFor_mul width (by decide)
        _ = 16 ^ wordsFor width 4 := by rw [Nat.pow_mul]
    rw [Literal.length_toList_hexText, Nat.max_eq_left (Radix.length_digits_le hpos hlt)]

/-- Four bits are written by one digit. -/
theorem hexDigits_eq_wordsFor {width : Int} (hwidth : 1 ≤ width) :
    Literal.hexDigits width = wordsFor width.toNat 4 := by
  rw [Literal.hexDigits, wordsFor]
  omega

/-- The characters that a word takes as a line. -/
def lineLength (width word : Nat) : Nat :=
  max (wordsFor width 4) (Radix.digits 16 word).length + 1

/-- The lines of a file are as long as each of them together. -/
theorem length_join_lines {width : Int} (hwidth : 1 ≤ width) (words : List Nat) :
    (String.join ((texts width words).map (· ++ "\n"))).length =
      (words.map (lineLength width.toNat)).sum := by
  induction words with
  | nil => rfl
  | cons word rest ih =>
    have hline : (Literal.hexText word (Literal.hexDigits width) ++ "\n").length =
        lineLength width.toNat word := by
      rw [String.length_append, ← String.length_toList, Literal.length_toList_hexText,
        hexDigits_eq_wordsFor hwidth]
      rfl
    rw [texts, List.map_cons, List.map_cons, String.join_cons, String.length_append, hline]
    exact congrArg _ ih

/-- Lines take at least what is asked for. -/
theorem le_length_join_lines {width : Int} (hwidth : 1 ≤ width) (words : List Nat) :
    words.length * (Literal.hexDigits width + 1) - 1 ≤
      (String.join ((texts width words).map (· ++ "\n"))).length := by
  have hsum := List.card_nsmul_le_sum (words.map (lineLength width.toNat))
    (Literal.hexDigits width + 1) (List.forall_mem_map.2 fun word _ => by
      rw [lineLength, hexDigits_eq_wordsFor hwidth]
      omega)
  rw [List.length_map, smul_eq_mul] at hsum
  rw [length_join_lines hwidth]
  omega

end Hex

/-! ## Files -/

namespace Report

/-- The bytes of an array are those of its data. -/
theorem toList_loop (bytes : ByteArray) (i : Nat) (r : List UInt8) :
    ByteArray.toList.loop bytes i r = r.reverse ++ bytes.data.toList.drop i := by
  fun_induction ByteArray.toList.loop bytes i r with
  | case1 i r h ih =>
    have hlt : i < bytes.data.toList.length := h
    rw [ih, List.reverse_cons, List.append_assoc, List.singleton_append,
      List.drop_eq_getElem_cons hlt]
    congr 2
    exact getElem!_pos bytes.data i h
  | case2 i r h =>
    have hle : bytes.data.toList.length ≤ i := Nat.not_lt.1 h
    rw [List.drop_eq_nil_of_le hle, List.append_nil]

/-- A text is told by its bytes. -/
theorem eq_of_toUTF8 {s t : String} (h : s.toUTF8.toList = t.toUTF8.toList) : s = t := by
  rw [ByteArray.toList, ByteArray.toList, toList_loop, toList_loop, List.drop_zero,
    List.drop_zero] at h
  exact String.toByteArray_inj.1 (ByteArray.ext (Array.toList_inj.1 h))

/-- Whether every word of a program is within its width. -/
def Within (a : Assembler) : Prop :=
  ∀ word ∈ a.image.words.toList, word < 2 ^ a.width.toNat

section

variable [Machine]

/-- What can be read of a program from its bytes and its lines, and when there are any. -/
structure Faithful (a : Assembler) : Prop where
  bytes_bounded : Bounded (bytes a)
    ((a.image.words.toList = [] ∨ Capacity.fieldBits a.width = .ok a.width.toNat) ∧
      a.image.words.toList.length * wordsFor a.width.toNat 8 ≤ Machine.text)
  bytes_read : ∀ file, bytes a = .ok file →
    file.length = a.image.words.toList.length * wordsFor a.width.toNat 8 ∧
    unpackWords (wordsFor a.width.toNat 8) file =
      a.image.words.toList.map (· % 2 ^ a.width.toNat)
  lines_bounded : Bounded (hexLines a)
    ((a.image.words.toList.map (Hex.lineLength a.width.toNat)).sum ≤ Machine.text)
  lines_read : ∀ text, hexLines a = .ok text →
    List.Forall₂ (Hex.Shows a.width.toNat) a.image.words.toList (linesOf text)
  agree : Within a → ∀ file text, bytes a = .ok file → hexLines a = .ok text →
    unpackWords (wordsFor a.width.toNat 8) file = a.image.words.toList ∧
    (linesOf text).map (Radix.positional 16) = a.image.words.toList
  distinct : Within a → ∀ b : Assembler, b.width = a.width → Within b →
    ∀ format, format = .bin ∨ format = .hex → ∀ file, content format a = .ok file →
      content format b = .ok file → a.image.words = b.image.words

variable {a : Assembler}

/-- The lines of an image can be written unless they are too long for a text. -/
theorem bounded_hexLines (hwidth : 1 ≤ a.width) : Bounded (hexLines a)
    ((a.image.words.toList.map (Hex.lineLength a.width.toNat)).sum ≤ Machine.text) := by
  rw [← Hex.length_join_lines hwidth]
  exact Hex.bounded_wordFields_bind (fun fields => String.join (fields.map (· ++ "\n")))
    (Hex.le_length_join_lines hwidth _)

/-- The lines of a program are those of its words. -/
theorem linesOf_hexLines (hwidth : 1 ≤ a.width) {text : String} (h : hexLines a = .ok text) :
    linesOf text = a.image.words.toList.map fun (word : Nat) =>
      (Literal.hexText word (wordsFor a.width.toNat 4)).toList := by
  obtain ⟨fields, hfields, htext⟩ := exists_of_bind_eq_ok h
  obtain ⟨rfl, -⟩ := Hex.wordFields_eq_ok hfields
  rw [(Capacity.holdText_eq_ok.1 htext).2, linesOf_join, Hex.texts, List.map_map,
    Hex.hexDigits_eq_wordsFor hwidth]
  · rfl
  · intro field hfield hbreak
    obtain ⟨word, -, rfl⟩ := List.mem_map.1 hfield
    exact Literal.not_mem_marks_of_mem_hexText hbreak (by decide)

/-- The lines of an image are read back as its words. -/
theorem map_positional_linesOf (hwidth : 1 ≤ a.width) {text : String} (h : hexLines a = .ok text) :
    (linesOf text).map (Radix.positional 16) = a.image.words.toList := by
  rw [linesOf_hexLines hwidth h, List.map_map]
  exact (List.map_congr_left fun word _ => Literal.positional_hexText _ _).trans (List.map_id _)

/-- The bytes of an image within its width are read back as its words. -/
theorem unpackWords_bytes (hwidth : 1 ≤ a.width) (hwithin : Within a) {file : List UInt8}
    (h : bytes a = .ok file) :
    unpackWords (wordsFor a.width.toNat 8) file = a.image.words.toList := by
  rw [unpackWords_packWords hwidth h]
  exact (List.map_congr_left fun word hword => Nat.mod_eq_of_lt (hwithin word hword)).trans
    (List.map_id _)

/-- **The output of a program can be read back.**  Bytes and lines tell the words of the image, the
bytes as far as the width reaches; where all words are within it, both tell the same, and no other
image has the same file. -/
theorem image_read (a : Assembler) (hwidth : 1 ≤ a.width) : Faithful a where
  bytes_bounded := by
    refine (bounded_packWords hwidth _).congr ?_
    rw [List.map_eq_nil_iff, List.length_map]
  bytes_read file h := ⟨length_packWords hwidth h, unpackWords_packWords hwidth h⟩
  lines_bounded := bounded_hexLines hwidth
  lines_read text h := by
    rw [linesOf_hexLines hwidth h, List.forall₂_map_right_iff, List.forall₂_same]
    exact fun word _ => Hex.shows_hexText (by omega)
  agree hwithin file text hfile htext :=
    ⟨unpackWords_bytes hwidth hwithin hfile, map_positional_linesOf hwidth htext⟩
  distinct := by
    intro hwithin b hsame hwithin' format hformat file ha hb
    have hwidth' : 1 ≤ b.width := hsame ▸ hwidth
    apply Array.toList_inj.1
    rcases hformat with rfl | rfl
    · rw [← unpackWords_bytes hwidth hwithin ha, ← unpackWords_bytes hwidth' hwithin' hb, hsame]
    · obtain ⟨text, htext, hfile⟩ := map_eq_ok_iff.1 ha
      obtain ⟨text', htext', hfile'⟩ := map_eq_ok_iff.1 hb
      obtain rfl := eq_of_toUTF8 (hfile.trans hfile'.symm)
      rw [← map_positional_linesOf hwidth htext, ← map_positional_linesOf hwidth' htext']

end

/-- A program of words of twelve bits, of which the second has one bit more. -/
def overflowing : Assembler :=
  { width := 12, image := { width := 12, words := #[0xABC, 0x1001] } }

open UsualMachine

theorem image_read_overflowing : 1 ≤ overflowing.width ∧ Faithful overflowing :=
  ⟨by decide, image_read overflowing (by decide)⟩

example : (bytes overflowing).toOption = some [0x0A, 0xBC, 0x00, 0x01] := by decide +kernel

example : (hexLines overflowing).toOption = some "ABC\n1001\n" := by decide +kernel

/-- A word that is too wide to be held has no bytes. -/
theorem not_packWords_overwide : ¬ ∃ file, packWords [5] 99999999999999999999 = .ok file := by
  have hfails : (packWords [5] 99999999999999999999).isOk = false := by decide +kernel
  rintro ⟨file, hfile⟩
  rw [hfile] at hfails
  cases hfails

end Report

end Retarget
