import Mathlib.Algebra.Group.Nat.Defs
import Mathlib.Data.List.Basic
import Esni.HexDump

/-!
# The layout of hex dumps

Each line of a dump holds sixteen bytes, and the last one those that are left. Every character has
its place: the offset, two digits for each byte behind a gap that is wider in the middle, and the
bytes as characters between two bars. The places do not depend on the bytes, not even on their
number but for the second bar, since missing bytes are left blank. So the digits can be read back
at their places, line by line, and a dump tells what it was made from.

## Main definitions

- `HexDump.LaidOut` — what stands where on a line
- `HexDump.readBack` — the bytes whose digits stand in the hex columns of a dump

## Main statements

- `HexDump.toList_rowsFrom` — the lines of a dump
- `HexDump.laidOut_line` — what stands where on each of them
- `HexDump.hexDump_layout` — the whole dump, and its bytes read back
-/

namespace Esni

namespace Hex

variable {width n : Nat}

theorem padded_succ (hwidth : 0 < width) (n : Nat) :
    padded (width + 1) n = padded width (n / 16) ++ [Nat.digitChar (n % 16)] := by
  rw [padded, padded, Nat.toDigits_eq_if (by decide)]
  by_cases h : n < 16
  · have hreplicate : List.replicate width '0' = List.replicate (width - 1) '0' ++ ['0'] := by
      rw [← List.replicate_succ', Nat.sub_add_cancel hwidth]
    rw [if_pos h, Nat.mod_eq_of_lt h, Nat.div_eq_of_lt h, List.leftpad, List.leftpad]
    exact congrArg (· ++ [Nat.digitChar n]) hreplicate
  · rw [if_neg h, List.leftpad, List.leftpad, List.length_append, List.length_singleton,
      Nat.add_sub_add_right, List.append_assoc]

/-- A number that fits has just as many digits as places. -/
theorem padded_eq_map (hwidth : 0 < width) (h : n < 16 ^ width) :
    padded width n =
      (List.range width).map fun i => Nat.digitChar (n / 16 ^ (width - 1 - i) % 16) := by
  induction width generalizing n with
  | zero => cases hwidth
  | succ width ih =>
    rcases Nat.eq_zero_or_pos width with rfl | hpos
    · have hn : n < 16 := h
      rw [padded, Nat.toDigits_of_lt_base hn]
      simp [List.leftpad, List.range_succ, Nat.mod_eq_of_lt hn]
    · have hn : n / 16 < 16 ^ width := by
        rw [Nat.div_lt_iff_lt_mul (by decide)]
        exact h
      rw [padded_succ hpos, ih hpos hn, List.range_succ, List.map_append]
      congr 1
      · apply List.map_congr_left
        intro i hi
        have hplace : width + 1 - 1 - i = width - 1 - i + 1 := by
          rw [List.mem_range] at hi
          omega
        rw [Nat.div_div_eq_div_mul, hplace, Nat.pow_succ']
      · simp

theorem length_padded (hwidth : 0 < width) (h : n < 16 ^ width) :
    (padded width n).length = width := by
  rw [padded_eq_map hwidth h, List.length_map, List.length_range]

end Hex

namespace HexDump

/-- The bytes on the line `k`. -/
def chunk (data : Bytes) (k : Nat) : Bytes := (data.drop (16 * k)).take 16

def lineCount (data : Bytes) : Nat := (data.length + 15) / 16

/-- The line of up to sixteen bytes that start at `offset`, without its end. -/
def line (offset : Nat) (bytes : Bytes) : List Char :=
  Hex.padded 8 offset ++ ' ' :: (List.range width).flatMap (column bytes) ++
    ' ' :: ' ' :: '|' :: bytes.map shown ++ ['|']

/-- The lines of a dump. -/
def lines (data : Bytes) : List (List Char) :=
  (List.range (lineCount data)).map fun k => line (16 * k) (chunk data k)

/-- The place of the first digit of byte `j` on its line. -/
def place (j : Nat) : Nat := if j < 8 then 10 + 3 * j else 11 + 3 * j

/-- What stands where on the line `k`, which has `c` bytes. -/
structure LaidOut (data : Bytes) (k c : Nat) (row : List Char) : Prop where
  count_eq : c = min 16 (data.length - 16 * k)
  count_pos : 0 < c
  length_eq : row.length = 62 + c
  offset : ∀ i < 8, row[i]? = some (Nat.digitChar (16 * k / 16 ^ (7 - i) % 16))
  bars : row[60]? = some '|' ∧ row[61 + c]? = some '|'
  digits : ∀ j < 16, ∀ byte, data[16 * k + j]? = some byte →
    row[place j]? = some (Nat.digitChar (byte.toNat / 16)) ∧
      row[place j + 1]? = some (Nat.digitChar (byte.toNat % 16))
  missing : ∀ j, c ≤ j → j < 16 → row[place j]? = some ' ' ∧ row[place j + 1]? = some ' '
  shown : ∀ j < 16, ∀ byte, data[16 * k + j]? = some byte →
    row[61 + j]? = some
      (if byte = 0x20 ∨ 0x21 ≤ byte ∧ byte ≤ 0x7e then Char.ofUInt8 byte else '.')

section Lines

variable {data bytes : Bytes} {offset j k : Nat}

theorem row_eq (offset : Nat) (bytes : Bytes) : row offset bytes = line offset bytes ++ ['\n'] := by
  simp [row, line]

theorem chunk_succ (data : Bytes) (k : Nat) : chunk data (k + 1) = chunk (data.drop 16) k := by
  rw [chunk, chunk, List.drop_drop, Nat.mul_succ, Nat.add_comm]

theorem lineCount_of_ne_nil (h : data ≠ []) : lineCount data = lineCount (data.drop 16) + 1 := by
  have hpos := List.length_pos_iff.2 h
  rw [lineCount, lineCount, List.length_drop]
  omega

/-- The dump has a row for each chunk. -/
theorem toList_rowsFrom (done : String) (offset : Nat) (data : Bytes) :
    (rowsFrom done offset data).toList = done.toList ++
      (List.range (lineCount data)).flatMap fun k => row (offset + 16 * k) (chunk data k) := by
  induction done, offset, data using rowsFrom.induct with
  | case1 done offset =>
    rw [rowsFrom, if_pos rfl]
    exact (List.append_nil _).symm
  | case2 done offset data hne ih =>
    have hnext (k : Nat) : row (offset + width + 16 * k) (chunk (data.drop width) k) =
        row (offset + 16 * (k + 1)) (chunk data (k + 1)) := by
      rw [chunk_succ, Nat.mul_succ, Nat.add_assoc, Nat.add_comm width]
      rfl
    rw [rowsFrom, if_neg hne, ih, String.toList_append, String.toList_ofList, List.append_assoc,
      lineCount_of_ne_nil hne, List.range_succ_eq_map, List.flatMap_cons, List.flatMap_map]
    simp only [hnext]
    rfl

theorem toList_hexDump (data : Bytes) :
    (hexDump data).toList = (lines data).flatMap (· ++ ['\n']) := by
  rw [hexDump, toList_rowsFrom, lines, List.flatMap_map]
  simp only [row_eq, Nat.zero_add]
  rfl

theorem getElem?_chunk (data : Bytes) (k : Nat) (hj : j < 16) :
    (chunk data k)[j]? = data[16 * k + j]? := by
  rw [chunk, List.getElem?_take_of_lt hj, List.getElem?_drop]

theorem length_chunk (data : Bytes) (k : Nat) :
    (chunk data k).length = min 16 (data.length - 16 * k) := by
  rw [chunk, List.length_take, List.length_drop]

end Lines

section Places

variable {data bytes : Bytes} {offset j k : Nat}

/-- The two characters for byte `j` of a line. -/
def digits (bytes : Bytes) (j : Nat) : List Char :=
  match bytes[j]? with
  | some byte => Hex.pair byte
  | none => [' ', ' ']

theorem length_digits (bytes : Bytes) (j : Nat) : (digits bytes j).length = 2 := by
  rw [digits]
  cases bytes[j]? <;> rfl

theorem exists_column_eq (bytes : Bytes) (j : Nat) :
    ∃ gap, column bytes j = gap ++ digits bytes j ∧ gap.length = if j = 8 then 2 else 1 := by
  rw [column, digits]
  by_cases h : j = 8
  · rw [if_pos h, if_pos h]
    refine ⟨[' ', ' '], ?_, rfl⟩
    cases bytes[j]? <;> rfl
  · rw [if_neg h, if_neg h]
    refine ⟨[' '], ?_, rfl⟩
    cases bytes[j]? <;> rfl

/-- The columns before byte `n` take three characters each, and one more for the gap. -/
theorem length_columns (bytes : Bytes) (n : Nat) :
    ((List.range n).flatMap (column bytes)).length = if n ≤ 8 then 3 * n else 3 * n + 1 := by
  induction n with
  | zero => rfl
  | succ n ih =>
    obtain ⟨gap, hcolumn, hgap⟩ := exists_column_eq bytes n
    rw [List.range_succ, List.flatMap_append, List.flatMap_singleton, List.length_append, ih,
      hcolumn, List.length_append, hgap, length_digits]
    split <;> split <;> split <;> omega

theorem getElem?_between {front mid rest : List Char} {n i : Nat} (hfront : front.length = n)
    (hi : i < mid.length) : (front ++ mid ++ rest)[n + i]? = mid[i]? := by
  subst hfront
  rw [List.append_assoc, List.getElem?_append_right (Nat.le_add_right _ _),
    Nat.add_sub_cancel_left, List.getElem?_append_left hi]

/-- The digits of a byte stand at its place, whatever stands before them. -/
theorem exists_line_digits (hoffset : offset < 16 ^ 8) (bytes : Bytes) (hj : j < 16) :
    ∃ front rest, line offset bytes = front ++ digits bytes j ++ rest ∧ front.length = place j := by
  obtain ⟨m, hm⟩ : ∃ m, width = j + 1 + m := ⟨15 - j, by unfold width; omega⟩
  obtain ⟨gap, hcolumn, hgap⟩ := exists_column_eq bytes j
  have hcolumns : (List.range width).flatMap (column bytes) =
      (List.range j).flatMap (column bytes) ++ (gap ++ digits bytes j) ++
        ((List.range m).map (j + 1 + ·)).flatMap (column bytes) := by
    rw [hm, List.range_add, List.flatMap_append, List.range_succ, List.flatMap_append,
      List.flatMap_singleton, hcolumn]
  refine ⟨Hex.padded 8 offset ++ ' ' :: ((List.range j).flatMap (column bytes) ++ gap),
    ((List.range m).map (j + 1 + ·)).flatMap (column bytes) ++
      ' ' :: ' ' :: '|' :: bytes.map shown ++ ['|'], ?_, ?_⟩
  · rw [line, hcolumns]
    simp only [List.append_assoc, List.cons_append]
  · rw [List.length_append, List.length_cons, List.length_append, length_columns, hgap,
      Hex.length_padded (by decide) hoffset, place]
    split <;> split <;> split <;> omega

theorem getElem?_line_digits (hoffset : offset < 16 ^ 8) (bytes : Bytes) (hj : j < 16) :
    (line offset bytes)[place j]? = (digits bytes j)[0]? ∧
      (line offset bytes)[place j + 1]? = (digits bytes j)[1]? := by
  obtain ⟨front, rest, hline, hfront⟩ := exists_line_digits hoffset bytes hj
  have hlength := length_digits bytes j
  rw [hline]
  exact ⟨getElem?_between (i := 0) hfront (by omega), getElem?_between hfront (by omega)⟩

/-- The bytes as characters stand behind the sixty characters of offset and digits. -/
theorem exists_line_shown (hoffset : offset < 16 ^ 8) (bytes : Bytes) :
    ∃ front, line offset bytes = front ++ ('|' :: bytes.map shown) ++ ['|'] ∧
      front.length = 60 := by
  refine ⟨Hex.padded 8 offset ++ ' ' :: ((List.range width).flatMap (column bytes) ++ [' ', ' ']),
    ?_, ?_⟩
  · rw [line]
    simp only [List.append_assoc, List.cons_append, List.nil_append]
  · rw [List.length_append, List.length_cons, List.length_append, length_columns,
      Hex.length_padded (by decide) hoffset]
    rfl

theorem length_line (hoffset : offset < 16 ^ 8) (bytes : Bytes) :
    (line offset bytes).length = 62 + bytes.length := by
  obtain ⟨front, hline, hfront⟩ := exists_line_shown hoffset bytes
  rw [hline, List.length_append, List.length_append, List.length_cons, List.length_map, hfront,
    List.length_singleton]
  omega

theorem getElem?_line_bars (hoffset : offset < 16 ^ 8) (bytes : Bytes) :
    (line offset bytes)[60]? = some '|' ∧
      (line offset bytes)[61 + bytes.length]? = some '|' := by
  obtain ⟨front, hline, hfront⟩ := exists_line_shown hoffset bytes
  have hinner : (front ++ '|' :: bytes.map shown).length = 61 + bytes.length := by
    rw [List.length_append, List.length_cons, List.length_map, hfront]
    omega
  rw [hline]
  constructor
  · exact getElem?_between (i := 0) hfront (Nat.zero_lt_succ _)
  · rw [← hinner, List.getElem?_concat_length]

theorem getElem?_line_shown (hoffset : offset < 16 ^ 8) (hj : j < bytes.length) :
    (line offset bytes)[61 + j]? = bytes[j]?.map shown := by
  obtain ⟨front, hline, hfront⟩ := exists_line_shown hoffset bytes
  have hplace : 61 + j = 60 + (j + 1) := by omega
  have hinside : j + 1 < ('|' :: bytes.map shown).length := by
    rw [List.length_cons, List.length_map]
    omega
  rw [hline, hplace, getElem?_between hfront hinside, List.getElem?_cons_succ, List.getElem?_map]

theorem shown_eq (byte : UInt8) :
    shown byte = if byte = 0x20 ∨ 0x21 ≤ byte ∧ byte ≤ 0x7e then Char.ofUInt8 byte else '.' := by
  have hrange : (0x20 ≤ byte ∧ byte ≤ 0x7e) ↔ (byte = 0x20 ∨ 0x21 ≤ byte ∧ byte ≤ 0x7e) := by
    simp only [UInt8.le_iff_toNat_le, ← UInt8.toNat_inj, UInt8.reduceToNat]
    omega
  rw [shown]
  simp only [hrange]

/-- Everything stands in its place. -/
theorem laidOut_line (hpos : 16 * k < data.length) (hsmall : data.length ≤ 2 ^ 32) :
    LaidOut data k (chunk data k).length (line (16 * k) (chunk data k)) := by
  have hoffset : 16 * k < 16 ^ 8 := Nat.lt_of_lt_of_le hpos hsmall
  have hlength := length_chunk data k
  constructor
  case count_eq => exact hlength
  case count_pos => omega
  case length_eq => exact length_line hoffset _
  case offset =>
    intro i hi
    have hfront : i < (Hex.padded 8 (16 * k)).length := by
      rwa [Hex.length_padded (by decide) hoffset]
    rw [line, List.append_assoc, List.append_assoc, List.getElem?_append_left hfront,
      Hex.padded_eq_map (by decide) hoffset]
    simp [hi]
  case bars => exact getElem?_line_bars hoffset _
  case digits =>
    intro j hj byte hbyte
    have hdigits : digits (chunk data k) j = Hex.pair byte := by
      rw [digits, getElem?_chunk data k hj, hbyte]
    have hplaces := getElem?_line_digits hoffset (chunk data k) hj
    rwa [hdigits] at hplaces
  case missing =>
    intro j hcount hj
    have hdigits : digits (chunk data k) j = [' ', ' '] := by
      rw [digits, List.getElem?_eq_none hcount]
    have hplaces := getElem?_line_digits hoffset (chunk data k) hj
    rwa [hdigits] at hplaces
  case shown =>
    intro j hj byte hbyte
    have hchunk := getElem?_chunk data k hj
    rw [hbyte] at hchunk
    obtain ⟨hinside, _⟩ := List.getElem?_eq_some_iff.1 hchunk
    rw [getElem?_line_shown hoffset hinside, hchunk, Option.map_some, shown_eq]

end Places

section Newlines

variable {data bytes : Bytes} {offset k : Nat}

theorem digitChar_ne_newline : ∀ d < 16, Nat.digitChar d ≠ '\n' := by decide

theorem pair_ne_newline (byte : UInt8) : '\n' ∉ Hex.pair byte := by
  have hlow := digitChar_ne_newline _ (Nat.mod_lt byte.toNat (by decide : 0 < 16))
  have hhigh := digitChar_ne_newline (byte.toNat / 16) (by have := byte.toNat_lt; omega)
  simp [Hex.pair, hlow.symm, hhigh.symm]

theorem shown_ne_newline (byte : UInt8) : shown byte ≠ '\n' := by
  rw [shown]
  split
  · rename_i hvisible
    intro h
    have hten : byte.toNat = 10 := congrArg Char.toNat h
    have hleast := UInt8.le_iff_toNat_le.1 hvisible.1
    rw [hten] at hleast
    exact absurd hleast (by decide)
  · decide

theorem newline_not_mem_line (hoffset : offset < 16 ^ 8) (bytes : Bytes) :
    '\n' ∉ line offset bytes := by
  have hpadded : '\n' ∉ Hex.padded 8 offset := by
    rw [Hex.padded_eq_map (by decide) hoffset, List.mem_map]
    rintro ⟨i, _, hi⟩
    exact digitChar_ne_newline _ (Nat.mod_lt _ (by decide)) hi
  have hcolumn (j : Nat) : '\n' ∉ column bytes j := by
    rw [column]
    cases bytes[j]? with
    | none => split <;> simp
    | some byte => split <;> simp [pair_ne_newline]
  have hshown : '\n' ∉ bytes.map shown := by
    rw [List.mem_map]
    rintro ⟨byte, _, hbyte⟩
    exact shown_ne_newline byte hbyte
  have hcolumns : '\n' ∉ (List.range width).flatMap (column bytes) := by
    rw [List.mem_flatMap]
    rintro ⟨j, _, hj⟩
    exact hcolumn j hj
  simp [line, hpadded, hcolumns, hshown]

end Newlines

section ReadingBack

variable {data : Bytes} {k c j : Nat}

/-- The value of a hexadecimal digit in lower case. -/
def digitValue? (c : Char) : Option Nat :=
  ['0', '1', '2', '3', '4', '5', '6', '7', '8', '9', 'a', 'b', 'c', 'd', 'e', 'f'].idxOf? c

/-- The byte whose two digits stand at a place of a line and behind it. -/
def byteAt? (row : List Char) (i : Nat) : Option UInt8 := do
  let high ← row[i]?.bind digitValue?
  let low ← row[i + 1]?.bind digitValue?
  return UInt8.ofNat (16 * high + low)

/-- The bytes in the hex columns of a line. -/
def readLine (row : List Char) : Bytes :=
  (List.range 16).filterMap fun j => byteAt? row (place j)

/-- The bytes in the hex columns of a dump, line by line. -/
def readBack (dump : String) : Bytes := (dump.toList.splitOn '\n').flatMap readLine

theorem digitValue?_digitChar : ∀ d < 16, digitValue? (Nat.digitChar d) = some d := by decide

/-- At the place of a byte there stands this byte, and none behind the last one. -/
theorem byteAt?_of_laidOut {row : List Char} (h : LaidOut data k c row) (hj : j < 16) :
    byteAt? row (place j) = data[16 * k + j]? := by
  cases hbyte : data[16 * k + j]? with
  | some byte =>
    obtain ⟨hhigh, hlow⟩ := h.digits j hj byte hbyte
    have hhalf : byte.toNat / 16 < 16 := by
      have := byte.toNat_lt
      omega
    rw [byteAt?, hhigh, hlow, Option.bind_some, Option.bind_some, digitValue?_digitChar _ hhalf,
      digitValue?_digitChar _ (Nat.mod_lt _ (by decide))]
    show some (UInt8.ofNat (16 * (byte.toNat / 16) + byte.toNat % 16)) = some byte
    rw [Nat.div_add_mod, UInt8.ofNat_toNat]
  | none =>
    have hcount : c ≤ j := by
      have hend := List.getElem?_eq_none_iff.1 hbyte
      have := h.count_eq
      omega
    rw [byteAt?, (h.missing j hcount hj).1]
    rfl

theorem filterMap_getElem?_range {α : Type} (items : List α) (n : Nat) :
    (List.range n).filterMap (items[·]?) = items.take n := by
  induction n with
  | zero => rfl
  | succ n ih =>
    rw [List.range_succ, List.filterMap_append, ih, List.take_add_one, List.filterMap_cons]
    cases items[n]? <;> rfl

theorem readLine_of_laidOut {row : List Char} (h : LaidOut data k c row) :
    readLine row = chunk data k := by
  have hbytes : ∀ j ∈ List.range 16, byteAt? row (place j) = (data.drop (16 * k))[j]? := by
    intro j hj
    rw [byteAt?_of_laidOut h (List.mem_range.1 hj), List.getElem?_drop]
  rw [readLine, List.filterMap_congr hbytes, filterMap_getElem?_range, chunk]

/-- The chunks are the data, cut after every sixteen bytes. -/
theorem flatMap_chunk_range (data : Bytes) (n : Nat) :
    (List.range n).flatMap (chunk data) = data.take (16 * n) := by
  induction n with
  | zero => rfl
  | succ n ih =>
    rw [List.range_succ, List.flatMap_append, ih, List.flatMap_singleton, chunk, Nat.mul_succ,
      List.take_add]

theorem splitOn_lines {rows : List (List Char)} (h : ∀ row ∈ rows, '\n' ∉ row) :
    (rows.flatMap (· ++ ['\n'])).splitOn '\n' = rows ++ [[]] := by
  induction rows with
  | nil => rfl
  | cons row rows ih =>
    rw [List.flatMap_cons, List.append_assoc, List.singleton_append,
      List.splitOn_append_cons_self, List.splitOn_eq_singleton (h row List.mem_cons_self),
      ih fun other hmem => h other (List.mem_cons_of_mem _ hmem), List.singleton_append,
      List.cons_append]

end ReadingBack

section Dumps

variable {data : Bytes} {k : Nat}

theorem lt_length_of_lt_lineCount (h : k < lineCount data) : 16 * k < data.length := by
  unfold lineCount at h
  omega

theorem getElem?_lines (h : k < lineCount data) :
    (lines data)[k]? = some (line (16 * k) (chunk data k)) := by
  simp [lines, h]

/-- All lines of the dump are laid out. -/
theorem laidOut_lines (hsmall : data.length ≤ 2 ^ 32) {row : List Char}
    (h : (lines data)[k]? = some row) : LaidOut data k (chunk data k).length row := by
  have hk : k < lineCount data := by
    obtain ⟨hk, _⟩ := List.getElem?_eq_some_iff.1 h
    rwa [lines, List.length_map, List.length_range] at hk
  rw [getElem?_lines hk, Option.some.injEq] at h
  rw [← h]
  exact laidOut_line (lt_length_of_lt_lineCount hk) hsmall

theorem newline_not_mem_lines (hsmall : data.length ≤ 2 ^ 32) :
    ∀ row ∈ lines data, '\n' ∉ row := by
  intro row hmem
  obtain ⟨k, hk, rfl⟩ := List.mem_map.1 hmem
  have hpos := lt_length_of_lt_lineCount (List.mem_range.1 hk)
  exact newline_not_mem_line (Nat.lt_of_lt_of_le hpos hsmall) _

theorem readBack_hexDump (hsmall : data.length ≤ 2 ^ 32) : readBack (hexDump data) = data := by
  have hlines : (lines data).flatMap readLine =
      (List.range (lineCount data)).flatMap (chunk data) := by
    rw [lines, List.flatMap_map]
    apply List.flatMap_congr
    intro k hk
    exact readLine_of_laidOut
      (laidOut_line (lt_length_of_lt_lineCount (List.mem_range.1 hk)) hsmall)
  have hwhole : data.length ≤ 16 * lineCount data := by
    unfold lineCount
    omega
  rw [readBack, toList_hexDump, splitOn_lines (newline_not_mem_lines hsmall), List.flatMap_append,
    hlines, flatMap_chunk_range, List.take_of_length_le hwhole]
  exact List.append_nil data

/-- The dump of up to `2 ^ 32` bytes has a line for every sixteen of them, and one for those that
are left. Each line ends with a line feed, and has no other. Everything on it stands in its place,
and all lines but the last one have sixteen bytes. So the hex columns, read line by line, give the
bytes back, and different byte strings have different dumps. -/
theorem hexDump_layout (data : Bytes) (hsmall : data.length ≤ 2 ^ 32) :
    (∃ rows : List (List Char), (hexDump data).toList = rows.flatMap (· ++ ['\n']) ∧
      rows.length = (data.length + 15) / 16 ∧ (∀ row ∈ rows, '\n' ∉ row) ∧
      ∀ k row, rows[k]? = some row →
        ∃ c, LaidOut data k c row ∧ (k + 1 < rows.length → c = 16)) ∧
    readBack (hexDump data) = data ∧
    ∀ other : Bytes, other.length ≤ 2 ^ 32 → hexDump other = hexDump data → other = data := by
  refine ⟨⟨lines data, toList_hexDump data, ?_, newline_not_mem_lines hsmall, ?_⟩,
    readBack_hexDump hsmall, ?_⟩
  · rw [lines, List.length_map, List.length_range, lineCount]
  · intro k row hrow
    refine ⟨_, laidOut_lines hsmall hrow, fun hk => ?_⟩
    rw [lines, List.length_map, List.length_range] at hk
    have hnext := lt_length_of_lt_lineCount hk
    rw [length_chunk]
    omega
  · intro other hother hdump
    rw [← readBack_hexDump hother, hdump, readBack_hexDump hsmall]

/-- Eighteen bytes: sixteen characters, a control character and one outside ASCII. -/
def eighteenBytes : Bytes :=
  [0x30, 0x31, 0x32, 0x33, 0x34, 0x35, 0x36, 0x37, 0x38, 0x39, 0x61, 0x62, 0x63, 0x64, 0x65, 0x66,
    0x00, 0xff]

/-- There are two lines, and the second one has the last byte at its place, in both columns, blanks
for the bytes that are missing, and its second bar behind the two bytes. -/
theorem hexDump_layout_eighteen :
    eighteenBytes.length ≤ 2 ^ 32 ∧
    (∃ rows : List (List Char), (hexDump eighteenBytes).toList = rows.flatMap (· ++ ['\n']) ∧
      rows.length = 2 ∧ ∀ row, rows[1]? = some row →
        row[6]? = some '1' ∧ (row[13]? = some 'f' ∧ row[14]? = some 'f') ∧
          (row[56]? = some ' ' ∧ row[57]? = some ' ') ∧ row[62]? = some '.' ∧
            row[63]? = some '|') ∧
    readBack (hexDump eighteenBytes) = eighteenBytes ∧
    (hexDump [] = hexDump eighteenBytes → [] = eighteenBytes) := by
  have hsmall : eighteenBytes.length ≤ 2 ^ 32 := by decide
  obtain ⟨⟨rows, hdump, hlength, _, hrows⟩, hback, hinjective⟩ :=
    hexDump_layout eighteenBytes hsmall
  refine ⟨hsmall, ⟨rows, hdump, hlength, fun row hrow => ?_⟩, hback, hinjective [] (by decide)⟩
  obtain ⟨c, hlaid, _⟩ := hrows 1 row hrow
  obtain rfl : c = 2 := hlaid.count_eq
  exact ⟨hlaid.offset 6 (by decide), hlaid.digits 1 (by decide) 0xff rfl,
    hlaid.missing 15 (by decide) (by decide), hlaid.shown 1 (by decide) 0xff rfl, hlaid.bars.2⟩

end Dumps

end HexDump

end Esni
