import Esni.Proofs.QuotedValues
import Esni.Proofs.RecordSections

/-!
# Texts and their bytes

A text is a sequence of bytes in UTF-8, and an ASCII byte is never a part of another character. So
the lines of a text can be found in its bytes: a byte string is a text if all of its lines are, and
its lines are those of the text. A line may end with a carriage return, and the last one may be
empty; neither makes a difference for the values that the lines stand for.

## Main definitions

- `utf8` and `IsText` — the bytes of characters, and the byte strings that are a text
- `readLines` — the lines that a reader of lines gets
- `lineValue?` — the value that a line stands for

## Main statements

- `toUTF8_eq_utf8` — the bytes of a string are those of its characters
- `isText_iff_readLines` — a byte string is a text exactly if all of its lines are
- `filterMap_readLines` — the lines stand for the values that the lines of the text stand for
-/

namespace Esni

/-- The bytes of characters in UTF-8. -/
def utf8 (text : List Char) : Bytes := text.flatMap String.utf8EncodeChar

theorem toUTF8_eq_utf8 (text : String) : text.toUTF8.data.toList = utf8 text.toList := by
  rw [String.toUTF8_eq_toByteArray, ← String.utf8Encode_toList]
  exact List.toList_data_toByteArray

theorem utf8_cons (c : Char) (text : List Char) :
    utf8 (c :: text) = String.utf8EncodeChar c ++ utf8 text := List.flatMap_cons

theorem utf8_singleton (c : Char) : utf8 [c] = String.utf8EncodeChar c := List.flatMap_singleton ..

theorem utf8_append (front rest : List Char) : utf8 (front ++ rest) = utf8 front ++ utf8 rest :=
  List.flatMap_append

/-! ### ASCII characters -/

theorem utf8EncodeChar_of_ascii {c : Char} (h : c.toNat < 128) :
    String.utf8EncodeChar c = [c.toUInt8] := by
  have hval : c.val.toNat ≤ 127 := Nat.le_of_lt_succ h
  rw [String.utf8EncodeChar.eq_1, if_pos hval]
  rfl

theorem utf8_of_ascii {text : List Char} (h : ∀ c ∈ text, c.toNat < 128) :
    utf8 text = text.map Char.toUInt8 := by
  induction text with
  | nil => rfl
  | cons c text ih =>
    rw [utf8_cons, utf8EncodeChar_of_ascii (h c List.mem_cons_self),
      ih fun d hd => h d (List.mem_cons_of_mem _ hd)]
    rfl

/-- The byte of an ASCII character is in the encoding of no other character. -/
theorem eq_of_mem_utf8EncodeChar {c ascii : Char} (hascii : ascii.toNat < 128)
    (h : ascii.toUInt8 ∈ String.utf8EncodeChar c) : c = ascii := by
  have hbyte : ascii.toUInt8.toNat = ascii.toNat := by
    simp only [Char.toUInt8, UInt32.toNat_toUInt8, Char.toNat] at *
    omega
  by_cases hc : c.toNat < 128
  · rw [utf8EncodeChar_of_ascii hc, List.mem_singleton, ← UInt8.toNat_inj, hbyte] at h
    simp only [Char.toUInt8, UInt32.toNat_toUInt8, Char.toNat] at *
    exact Char.ext (UInt32.toNat_inj.1 (by omega))
  · -- Every byte of a longer encoding has its highest bit set.
    have hlarge : ∀ byte ∈ String.utf8EncodeChar c, 128 ≤ byte.toNat := by
      have hval : ¬c.val.toNat ≤ 127 := fun hle => hc (Nat.lt_succ_of_le hle)
      rw [String.utf8EncodeChar.eq_1, if_neg hval]
      split
      · simp; omega
      · split
        · simp; omega
        · simp; omega
    have := hlarge _ h
    omega

/-! ### Lines -/

/-- A line without the carriage return at its end, if there is one. -/
def withoutReturn (line : Bytes) : Bytes :=
  if line.getLast? = some '\r'.toUInt8 then line.dropLast else line

/-- The lines that a reader of lines gets: what is in front of each line feed, without a carriage
return at its end, and what is behind the last line feed, if there is anything. -/
def readLines (data : Bytes) : List Bytes :=
  let parts := data.splitOn '\n'.toUInt8
  parts.dropLast.map withoutReturn ++ parts.getLast?.toList.filter (· ≠ [])

/-- Whether a byte string is a text in UTF-8. -/
def IsText (data : Bytes) : Prop := ∃ text, utf8 text = data

theorem isText_utf8 (text : List Char) : IsText (utf8 text) := ⟨text, rfl⟩

/-- The text of a line, if its bytes are one. -/
def lineText? (line : Bytes) : Option String := String.fromUTF8? line.toByteArray

theorem lineText?_utf8 (text : List Char) : lineText? (utf8 text) = some (String.ofList text) := by
  rw [lineText?, fromUTF8?_eq_some_iff, toUTF8_eq_utf8, String.toList_ofList]

theorem lineText?_ne_none_iff {line : Bytes} : lineText? line ≠ none ↔ IsText line := by
  constructor
  · intro h
    obtain ⟨text, htext⟩ := Option.ne_none_iff_exists'.1 h
    exact ⟨text.toList, by rw [← toUTF8_eq_utf8, fromUTF8?_eq_some_iff.1 htext]⟩
  · rintro ⟨text, rfl⟩
    rw [lineText?_utf8]
    exact Option.some_ne_none _

theorem splitOn_append_of_not_mem {sep : UInt8} {front : Bytes} (h : sep ∉ front) (rest : Bytes) :
    (front ++ rest).splitOn sep = (rest.splitOn sep).modifyHead (front ++ ·) := by
  induction front with
  | nil =>
    rw [List.nil_append]
    cases rest.splitOn sep <;> simp
  | cons x front ih =>
    have hx : x ≠ sep := fun heq => h (heq ▸ List.mem_cons_self)
    rw [List.cons_append, List.splitOn_cons_eq_if_modifyHead, if_neg (by simpa using hx),
      ih fun hmem => h (List.mem_cons_of_mem _ hmem), List.modifyHead_modifyHead]
    rfl

/-- The bytes of a text are cut at the same places as the text. -/
theorem splitOn_utf8 {sep : Char} (hascii : sep.toNat < 128) (text : List Char) :
    (utf8 text).splitOn sep.toUInt8 = (text.splitOn sep).map utf8 := by
  induction text with
  | nil => rfl
  | cons c text ih =>
    rw [utf8_cons, List.splitOn_cons_eq_if_modifyHead]
    by_cases hc : c = sep
    · subst hc
      rw [if_pos (beq_self_eq_true c), utf8EncodeChar_of_ascii hascii, List.singleton_append,
        List.splitOn_cons_eq_if_modifyHead, if_pos (beq_self_eq_true _), ih]
      rfl
    · have hnotmem : sep.toUInt8 ∉ String.utf8EncodeChar c :=
        fun hmem => hc (eq_of_mem_utf8EncodeChar hascii hmem)
      rw [if_neg (by simpa using hc), splitOn_append_of_not_mem hnotmem, ih]
      cases text.splitOn sep with
      | nil => rfl
      | cons part parts => simp [utf8_cons]

/-- A carriage return in the bytes of a text is one of the text. -/
theorem withoutReturn_utf8 (text : List Char) :
    ∃ line, withoutReturn (utf8 text) = utf8 line ∧ (text = line ∨ text = line ++ ['\r']) := by
  rw [withoutReturn]
  split
  · rename_i hlast
    induction text using List.reverseRecOn with
    | nil => cases hlast
    | append_singleton front c _ =>
      have hmem : '\r'.toUInt8 ∈ String.utf8EncodeChar c := by
        rw [utf8_append, utf8_singleton,
          List.getLast?_append_of_ne_nil _ String.utf8EncodeChar_ne_nil] at hlast
        exact List.mem_of_getLast? hlast
      obtain rfl := eq_of_mem_utf8EncodeChar (by decide) hmem
      refine ⟨front, ?_, .inr rfl⟩
      rw [utf8_append]
      exact List.dropLast_concat
  · exact ⟨text, rfl, .inl rfl⟩

theorem isText_withoutReturn_iff {line : Bytes} : IsText (withoutReturn line) ↔ IsText line := by
  constructor
  · rintro ⟨text, htext⟩
    rw [withoutReturn] at htext
    split at htext
    · rename_i hlast
      refine ⟨text ++ ['\r'], ?_⟩
      rw [utf8_append, htext]
      exact List.dropLast_append_getLast? _ hlast
    · exact ⟨text, htext⟩
  · rintro ⟨text, rfl⟩
    obtain ⟨line, hline, _⟩ := withoutReturn_utf8 text
    rw [hline]
    exact isText_utf8 line

/-- Texts with separators between them are a text. -/
theorem isText_intercalate {sep : Char} (hascii : sep.toNat < 128) {parts : List Bytes}
    (h : ∀ part ∈ parts, IsText part) : IsText ([sep.toUInt8].intercalate parts) := by
  induction parts with
  | nil => exact isText_utf8 []
  | cons part parts ih =>
    obtain ⟨text, rfl⟩ := h part List.mem_cons_self
    obtain ⟨rest, hrest⟩ := ih fun other hother => h other (List.mem_cons_of_mem _ hother)
    cases parts with
    | nil => exact ⟨text, by simp⟩
    | cons next parts =>
      refine ⟨text ++ sep :: rest, ?_⟩
      rw [List.intercalate_cons_of_ne_nil (List.cons_ne_nil _ _), ← hrest, utf8_append, utf8_cons,
        utf8EncodeChar_of_ascii hascii, List.append_assoc]

theorem isText_iff_splitOn {sep : Char} (hascii : sep.toNat < 128) {data : Bytes} :
    IsText data ↔ ∀ part ∈ data.splitOn sep.toUInt8, IsText part := by
  constructor
  · rintro ⟨text, rfl⟩ part hpart
    rw [splitOn_utf8 hascii] at hpart
    obtain ⟨text, _, rfl⟩ := List.mem_map.1 hpart
    exact isText_utf8 text
  · intro h
    have hjoined : [sep.toUInt8].intercalate (data.splitOn sep.toUInt8) = data :=
      List.intercalate_splitOn _
    rw [← hjoined]
    exact isText_intercalate hascii h

/-- The lines in terms of the parts between the line feeds, with the last part apart. -/
theorem exists_readLines_eq (data : Bytes) :
    ∃ front last, data.splitOn '\n'.toUInt8 = front ++ [last] ∧
      readLines data = front.map withoutReturn ++ if last = [] then [] else [last] := by
  rcases List.eq_nil_or_concat' (data.splitOn '\n'.toUInt8) with hnil | ⟨front, last, hparts⟩
  · exact absurd hnil (List.splitOn_ne_nil _ _)
  · refine ⟨front, last, hparts, ?_⟩
    rw [readLines, hparts]
    by_cases hlast : last = [] <;> simp [hlast]

/-- A byte string is a text exactly if each of its lines is one. -/
theorem isText_iff_readLines {data : Bytes} :
    IsText data ↔ ∀ line ∈ readLines data, IsText line := by
  obtain ⟨front, last, hparts, hlines⟩ := exists_readLines_eq data
  have hlast : (∀ part ∈ [last], IsText part) ↔
      ∀ line ∈ (if last = [] then [] else [last]), IsText line := by
    by_cases hempty : last = []
    · have hnil : IsText [] := isText_utf8 []
      simp [hempty, hnil]
    · rw [if_neg hempty]
  have hfront : (∀ part ∈ front, IsText part) ↔
      ∀ line ∈ front.map withoutReturn, IsText line := by
    simp only [List.forall_mem_map, isText_withoutReturn_iff]
  have hsplit : IsText data ↔ ∀ part ∈ data.splitOn '\n'.toUInt8, IsText part :=
    isText_iff_splitOn (by decide)
  rw [hsplit, hparts, hlines, List.forall_mem_append, List.forall_mem_append, hlast, hfront]

/-! ### Values of lines -/

/-- The value that a line stands for, if it is a text and there is any. -/
def lineValue? (line : Bytes) : Option String := (lineText? line).bind txtValue?

theorem lineValue?_utf8 (text : List Char) :
    lineValue? (utf8 text) = txtValue? (String.ofList text) := by
  rw [lineValue?, lineText?_utf8, Option.bind_some]

theorem txtValue?_concat_return (text : List Char) :
    txtValue? (String.ofList (text ++ ['\r'])) = txtValue? (String.ofList text) := by
  have hblank : Blank ['\r'] := by
    intro c hc
    obtain rfl := List.mem_singleton.1 hc
    decide
  rw [txtValue?, txtValue?, String.toList_ofList, String.toList_ofList,
    unquoted_append_blank text hblank]

/-- The lines of a text stand for the same values, whether or not they end with a carriage return,
and whether or not the last one is there if it is empty. -/
theorem filterMap_readLines (text : List Char) :
    (readLines (utf8 text)).filterMap lineValue? =
      ((text.splitOn '\n').map String.ofList).filterMap txtValue? := by
  obtain ⟨front, last, hparts, hlines⟩ := exists_readLines_eq (utf8 text)
  have hreturn : ∀ part ∈ front ++ [last],
      lineValue? (withoutReturn part) = lineValue? part := by
    rw [← hparts, splitOn_utf8 (by decide)]
    intro part hpart
    obtain ⟨text, _, rfl⟩ := List.mem_map.1 hpart
    obtain ⟨line, hline, rfl | rfl⟩ := withoutReturn_utf8 text
    · rw [hline]
    · rw [hline, lineValue?_utf8, lineValue?_utf8, txtValue?_concat_return]
  have hlast : (if last = [] then [] else [last]).filterMap lineValue? =
      [last].filterMap lineValue? := by
    split
    · rename_i hempty
      subst hempty
      rfl
    · rfl
  calc (readLines (utf8 text)).filterMap lineValue?
    _ = (front ++ [last]).filterMap lineValue? := by
      rw [hlines, List.filterMap_append, List.filterMap_append, hlast, List.filterMap_map]
      congr 1
      exact List.filterMap_congr fun part hpart => hreturn part (List.mem_append_left _ hpart)
    _ = ((text.splitOn '\n').map utf8).filterMap lineValue? := by
      rw [← hparts, splitOn_utf8 (by decide)]
    _ = ((text.splitOn '\n').map String.ofList).filterMap txtValue? := by
      rw [List.filterMap_map, List.filterMap_map]
      exact List.filterMap_congr fun part _ => lineValue?_utf8 part

end Esni
