import Esni.Proofs.QuotedValues

/-!
# What a value keeps of a printed text

Quotes are not looked at in pairs, so a value is defined for every text, however its quotes and its
blanks stand. All that is left out are quotes and blanks: the other characters stay, in their
order. Nothing more can be taken off what is left, so it stands for itself, and only a text of
quotes and blanks stands for nothing. In the other direction strings that have no quotes in them
and no blanks at their ends are put together as they are, and empty ones make no difference.

## Main statements

- `exists_eq_append_trim` and `tidy_trim` — what is taken off a part, and what is left
- `tidy_unquoted` and `filter_unquoted` — the same for a text with quotes
- `txtValue?_removes_quoting` — the values of all texts, and of quoted strings
-/

namespace Esni

/-! ### One part -/

/-- What is taken off a part are blanks. -/
theorem exists_eq_append_trim (text : List Char) :
    ∃ front back, Blank front ∧ Blank back ∧ text = front ++ trim text ++ back := by
  refine ⟨text.takeWhile isBlank, ((text.dropWhile isBlank).reverse.takeWhile isBlank).reverse,
    fun c hc => List.mem_takeWhile_imp hc,
    fun c hc => List.mem_takeWhile_imp (List.mem_reverse.1 hc), ?_⟩
  rw [trim, List.append_assoc, ← List.reverse_append, List.takeWhile_append_dropWhile,
    List.reverse_reverse, List.takeWhile_append_dropWhile]

theorem not_isBlank_head_dropWhile (text : List Char) :
    ∀ c ∈ (text.dropWhile isBlank).head?, ¬isBlank c := by
  intro c hc
  have hnot := List.head?_dropWhile_not isBlank text
  rw [Option.mem_def.1 hc] at hnot
  exact Bool.eq_false_iff.1 hnot

theorem tidy_trim {text : List Char} (h : '"' ∉ text) : Tidy (trim text) where
  quote_not_mem hquote := by
    obtain ⟨front, back, _, _, hsplit⟩ := exists_eq_append_trim text
    apply h
    rw [hsplit]
    exact List.mem_append_left back (List.mem_append_right front hquote)
  head_not_blank c hc := by
    -- What the end loses stands behind the first character that is left.
    have hsplit := List.takeWhile_append_dropWhile (p := isBlank)
      (l := (text.dropWhile isBlank).reverse)
    have hlast := congrArg List.getLast? hsplit
    rw [trim, List.head?_reverse] at hc
    rw [List.getLast?_append, Option.mem_def.1 hc, Option.some_or, List.getLast?_reverse] at hlast
    exact not_isBlank_head_dropWhile text c hlast.symm
  last_not_blank c hc := by
    rw [trim, List.getLast?_reverse] at hc
    exact not_isBlank_head_dropWhile _ c hc

theorem filter_trim (text : List Char) :
    (trim text).filter (!isBlank ·) = text.filter (!isBlank ·) := by
  obtain ⟨front, back, hfront, hback, hsplit⟩ := exists_eq_append_trim text
  have hnil {blanks : List Char} (h : Blank blanks) : blanks.filter (!isBlank ·) = [] := by
    rw [List.filter_eq_nil_iff]
    intro c hc
    simp [h c hc]
  have hkept := congrArg (List.filter (!isBlank ·)) hsplit
  rw [List.filter_append, List.filter_append, hnil hfront, hnil hback, List.nil_append,
    List.append_nil] at hkept
  exact hkept.symm

/-! ### All parts -/

theorem tidy_nil : Tidy [] where
  quote_not_mem := List.not_mem_nil
  head_not_blank _ hc := nomatch hc
  last_not_blank _ hc := nomatch hc

theorem Tidy.append {front rest : List Char} (hfront : Tidy front) (hrest : Tidy rest) :
    Tidy (front ++ rest) where
  quote_not_mem := by
    rw [List.mem_append, not_or]
    exact ⟨hfront.quote_not_mem, hrest.quote_not_mem⟩
  head_not_blank c hc := by
    rw [List.head?_append, Option.mem_def, Option.or_eq_some_iff] at hc
    rcases hc with hc | ⟨_, hc⟩
    · exact hfront.head_not_blank c hc
    · exact hrest.head_not_blank c hc
  last_not_blank c hc := by
    rw [List.getLast?_append, Option.mem_def, Option.or_eq_some_iff] at hc
    rcases hc with hc | ⟨_, hc⟩
    · exact hrest.last_not_blank c hc
    · exact hfront.last_not_blank c hc

/-- Nothing more can be taken off what is left of a text. -/
theorem tidy_unquoted (text : List Char) : Tidy (unquoted text) := by
  induction text using quote_induction with
  | part text hquote =>
    rw [unquoted_eq_trim hquote]
    exact tidy_trim hquote
  | quote front rest hfront ih =>
    rw [unquoted_append_quote, unquoted_eq_trim hfront]
    exact (tidy_trim hfront).append ih

/-- What is left of a text are all its characters but quotes and blanks, and maybe some blanks. -/
theorem filter_unquoted (text : List Char) :
    (unquoted text).filter (!isBlank ·) = text.filter fun c => !isBlank c && c != '"' := by
  have hpart {part : List Char} (hquote : '"' ∉ part) : (unquoted part).filter (!isBlank ·) =
      part.filter fun c => !isBlank c && c != '"' := by
    rw [unquoted_eq_trim hquote, filter_trim]
    apply List.filter_congr
    intro c hc
    have hne : c ≠ '"' := fun h => hquote (h ▸ hc)
    simp [hne]
  induction text using quote_induction with
  | part text hquote => exact hpart hquote
  | quote front rest hfront ih =>
    rw [unquoted_append_quote, List.filter_append, hpart hfront, ih, List.filter_append,
      List.filter_cons_of_neg (by simp)]

/-- Nothing is left exactly of a text of quotes and blanks. -/
theorem unquoted_eq_nil_iff (text : List Char) :
    unquoted text = [] ↔ ∀ c ∈ text, c = '"' ∨ isBlank c := by
  have hkept : (text.filter fun c => !isBlank c && c != '"') = [] ↔
      ∀ c ∈ text, c = '"' ∨ isBlank c := by
    rw [List.filter_eq_nil_iff]
    apply forall₂_congr
    intro c _
    cases isBlank c <;> simp
  rw [← hkept, ← filter_unquoted]
  constructor
  · intro hnil
    rw [hnil]
    rfl
  · intro hnone
    -- If anything is left its first character is not blank, so it would be among the others.
    cases hrest : unquoted text with
    | nil => rfl
    | cons c rest =>
      have hvisible := (tidy_unquoted text).head_not_blank c (by rw [hrest]; rfl)
      rw [hrest, List.filter_eq_nil_iff] at hnone
      exact absurd (by simpa using hvisible) (hnone c List.mem_cons_self)

/-! ### Values -/

theorem txtValue?_eq_none_iff {text : String} :
    txtValue? text = none ↔ unquoted text.toList = [] := by
  unfold txtValue?
  by_cases h : unquoted text.toList = [] <;> simp [h]

theorem txtValue?_eq_some_iff {text value : String} :
    txtValue? text = some value ↔
      unquoted text.toList ≠ [] ∧ value = String.ofList (unquoted text.toList) := by
  unfold txtValue?
  by_cases h : unquoted text.toList = [] <;> simp [h, eq_comm]

/-- A text has no value exactly if it has nothing but quotes and blanks. Otherwise its value has no
quotes and no blanks at its ends, it is its own value, and it has the same characters in the same
order as the text, but for quotes and blanks. The value of quoted strings without quotes in them and
without blanks at their ends is made of the strings, one after the other, with any blanks before,
between and behind the quoted ones; strings that are empty make no difference. -/
theorem txtValue?_removes_quoting :
    (∀ text : String,
      (txtValue? text = none ↔ ∀ c ∈ text.toList, c = '"' ∨ isBlank c = true) ∧
        ∀ value, txtValue? text = some value →
          Tidy value.toList ∧ txtValue? value = some value ∧
            value.toList.filter (!isBlank ·) =
              text.toList.filter fun c => !isBlank c && c != '"') ∧
    ∀ (chunks : List (List Char)) (before : List Char) (strings : List QuotedString),
      chunks ≠ [] → (∀ chunk ∈ chunks, chunk ≠ [] ∧ Tidy chunk) →
      Blank before → (∀ string ∈ strings, Blank string.after) →
      (strings.map (·.contents)).filter (· ≠ []) = chunks →
      txtValue? (String.ofList (quotedText before strings)) =
        some (String.ofList chunks.flatten) := by
  refine ⟨fun text => ⟨?_, fun value hvalue => ?_⟩, ?_⟩
  · rw [txtValue?_eq_none_iff, unquoted_eq_nil_iff]
  · obtain ⟨hne, rfl⟩ := txtValue?_eq_some_iff.1 hvalue
    have htidy := tidy_unquoted text.toList
    rw [String.toList_ofList]
    refine ⟨htidy, txtValue?_eq_some_iff.2 ?_, filter_unquoted _⟩
    rw [String.toList_ofList, htidy.unquoted_eq]
    exact ⟨hne, rfl⟩
  · intro chunks before strings hchunks htidy hbefore hafter hcontents
    have hstrings (string : QuotedString) (hmem : string ∈ strings) : Tidy string.contents := by
      by_cases hnil : string.contents = []
      · rw [hnil]
        exact tidy_nil
      · refine (htidy string.contents ?_).2
        rw [← hcontents, List.mem_filter]
        exact ⟨List.mem_map_of_mem hmem, by simpa using hnil⟩
    have hvalue : unquoted (quotedText before strings) = chunks.flatten := by
      rw [unquoted_quotedText hbefore hstrings hafter, ← hcontents, List.flatten_filter_ne_nil]
      rfl
    rw [txtValue?_eq_some_iff, String.toList_ofList, hvalue]
    refine ⟨?_, rfl⟩
    obtain ⟨chunk, hmem⟩ := List.exists_mem_of_ne_nil chunks hchunks
    intro hnil
    exact (htidy chunk hmem).1 (List.flatten_eq_nil_iff.1 hnil chunk hmem)

/-- Two strings, of which the first has a blank and a tab inside, with an empty string and a line
feed between them. -/
def spacedStrings : List QuotedString :=
  [⟨['a', ' ', '\t', 'b'], []⟩, ⟨[], [' ', '\n']⟩, ⟨['c'], ['\u3000']⟩]

/-- The blanks inside the first string stay, and the value is its own value. -/
theorem txtValue?_removes_quoting_spaced :
    txtValue? " \"\u3000\" \"" = none ∧
    txtValue? (String.ofList (quotedText [' '] spacedStrings)) =
      some (String.ofList ['a', ' ', '\t', 'b', 'c']) ∧
    txtValue? (String.ofList ['a', ' ', '\t', 'b', 'c']) =
      some (String.ofList ['a', ' ', '\t', 'b', 'c']) := by
  obtain ⟨htexts, hstrings⟩ := txtValue?_removes_quoting
  have htidy : ∀ chunk ∈ [['a', ' ', '\t', 'b'], ['c']], chunk ≠ [] ∧ Tidy chunk := by
    intro chunk hmem
    simp only [List.mem_cons, List.not_mem_nil, or_false] at hmem
    rcases hmem with rfl | rfl <;>
      exact ⟨List.cons_ne_nil _ _, by decide, by simp [isBlank, blankRanges],
        by simp [isBlank, blankRanges]⟩
  have hafter : ∀ string ∈ spacedStrings, Blank string.after := by
    simp [spacedStrings, Blank, isBlank, blankRanges]
  have hvalue := hstrings [['a', ' ', '\t', 'b'], ['c']] [' '] spacedStrings
    (List.cons_ne_nil _ _) htidy (by simp [Blank, isBlank, blankRanges]) hafter rfl
  have hnone : ∀ c ∈ " \"\u3000\" \"".toList, c = '"' ∨ isBlank c = true := by
    simp [isBlank, blankRanges]
  exact ⟨(htexts _).1.2 hnone, hvalue, ((htexts _).2 _ hvalue).2.1⟩

end Esni
