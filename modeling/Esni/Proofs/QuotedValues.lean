import Mathlib.Data.List.TakeWhile
import Esni.TxtValue

/-!
# Values between quotes

What a printed value stands for is found part by part: the text is cut at its quotes, and each part
loses the blanks at its ends. So a quote splits the value in two, blanks at the ends of a text
do not count, and strings that are printed between quotes, with any blanks around them, are put
together again.

## Main definitions

- `Blank` and `Visible` — texts of blanks only, and texts without blanks and quotes
- `Tidy` — texts without quotes and without blanks at their ends
- `QuotedString` and `quotedText` — strings as a tool prints them between quotes
- `PrintedAs` — all ways in which a tool may print a value

## Main statements

- `unquoted_append_quote` — a quote splits the value
- `unquoted_append_blank` and `unquoted_blank_append` — blanks at the ends do not count
- `unquoted_quotedText` — quoted strings are put together
- `txtValue?_of_printedAs` — a value is found however it is printed
-/

namespace Esni

/-- A text of blanks only, which may be empty. -/
def Blank (text : List Char) : Prop := ∀ c ∈ text, isBlank c

/-- A text with neither blanks nor quotes in it. -/
def Visible (text : List Char) : Prop := ∀ c ∈ text, ¬isBlank c ∧ c ≠ '"'

/-- A text without quotes in it and without blanks at its ends. -/
structure Tidy (text : List Char) : Prop where
  quote_not_mem : '"' ∉ text
  head_not_blank : ∀ c ∈ text.head?, ¬isBlank c
  last_not_blank : ∀ c ∈ text.getLast?, ¬isBlank c

theorem Visible.tidy {text : List Char} (h : Visible text) : Tidy text where
  quote_not_mem hquote := (h '"' hquote).2 rfl
  head_not_blank c hc := (h c (List.mem_of_head? hc)).1
  last_not_blank c hc := (h c (List.mem_of_getLast? hc)).1

/-! ### Blanks at the ends of a part -/

theorem trim_blank_append {blanks : List Char} (h : Blank blanks) (text : List Char) :
    trim (blanks ++ text) = trim text := by
  rw [trim, List.dropWhile_append_of_pos h]
  rfl

theorem trim_append_blank (text : List Char) {blanks : List Char} (h : Blank blanks) :
    trim (text ++ blanks) = trim text := by
  have hnil : blanks.dropWhile isBlank = [] := List.dropWhile_eq_nil_iff.2 h
  rw [trim, trim, List.dropWhile_append]
  -- If nothing but blanks stands in front, all is gone before the end is looked at.
  by_cases hempty : (text.dropWhile isBlank).isEmpty
  · rw [if_pos hempty, hnil, List.isEmpty_iff.1 hempty]
  · rw [if_neg hempty, List.reverse_append,
      List.dropWhile_append_of_pos fun c hc => h c (List.mem_reverse.1 hc)]

theorem dropWhile_isBlank_eq_self {text : List Char} (h : ∀ c ∈ text.head?, ¬isBlank c) :
    text.dropWhile isBlank = text := by
  cases text with
  | nil => rfl
  | cons c text => exact List.dropWhile_cons_of_neg (h c rfl)

theorem Tidy.trim_eq {text : List Char} (h : Tidy text) : trim text = text := by
  have hlast : ∀ c ∈ text.reverse.head?, ¬isBlank c := by
    rw [List.head?_reverse]
    exact h.last_not_blank
  rw [trim, dropWhile_isBlank_eq_self h.head_not_blank, dropWhile_isBlank_eq_self hlast,
    List.reverse_reverse]

/-! ### Parts between quotes -/

theorem Blank.quote_not_mem {blanks : List Char} (h : Blank blanks) : '"' ∉ blanks := by
  intro hquote
  have hblank : isBlank '"' := h '"' hquote
  revert hblank
  decide

theorem unquoted_eq_trim {text : List Char} (h : '"' ∉ text) : unquoted text = trim text := by
  rw [unquoted, List.splitOn_eq_singleton h, List.flatMap_singleton]

/-- A text without quotes and without blanks at its ends stands for itself. -/
theorem Tidy.unquoted_eq {text : List Char} (h : Tidy text) : unquoted text = text := by
  rw [unquoted_eq_trim h.quote_not_mem, h.trim_eq]

/-- The value in front of a quote and the value behind it are found apart. -/
theorem unquoted_append_quote (front rest : List Char) :
    unquoted (front ++ '"' :: rest) = unquoted front ++ unquoted rest := by
  rw [unquoted, List.splitOn_append_cons_self, List.flatMap_append]
  rfl

theorem unquoted_quote_cons (text : List Char) : unquoted ('"' :: text) = unquoted text :=
  unquoted_append_quote [] text

/-- Induction on the quotes of a text, of which the first one is taken off. -/
theorem quote_induction {motive : List Char → Prop} (part : ∀ text, '"' ∉ text → motive text)
    (quote : ∀ front rest, '"' ∉ front → motive rest → motive (front ++ '"' :: rest))
    (text : List Char) : motive text := by
  by_cases hquote : '"' ∈ text
  · obtain ⟨front, rest, hsplit, hfront⟩ := List.eq_append_cons_of_mem hquote
    rw [hsplit]
    exact quote front rest hfront (quote_induction part quote rest)
  · exact part text hquote
termination_by text.length
decreasing_by
  simp only [hsplit, List.length_append, List.length_cons]
  omega

theorem unquoted_append_blank (text : List Char) {blanks : List Char} (h : Blank blanks) :
    unquoted (text ++ blanks) = unquoted text := by
  induction text using quote_induction with
  | part text hquote =>
    have happend : '"' ∉ text ++ blanks := by
      rw [List.mem_append, not_or]
      exact ⟨hquote, h.quote_not_mem⟩
    rw [unquoted_eq_trim happend, unquoted_eq_trim hquote, trim_append_blank text h]
  | quote front rest hfront ih =>
    rw [List.append_assoc, List.cons_append, unquoted_append_quote, unquoted_append_quote, ih]

theorem unquoted_blank_append {blanks : List Char} (h : Blank blanks) (text : List Char) :
    unquoted (blanks ++ text) = unquoted text := by
  have hpart {part : List Char} (hquote : '"' ∉ part) :
      unquoted (blanks ++ part) = unquoted part := by
    have happend : '"' ∉ blanks ++ part := by
      rw [List.mem_append, not_or]
      exact ⟨h.quote_not_mem, hquote⟩
    rw [unquoted_eq_trim happend, unquoted_eq_trim hquote, trim_blank_append h part]
  induction text using quote_induction with
  | part text hquote => exact hpart hquote
  | quote front rest hfront ih =>
    rw [← List.append_assoc, unquoted_append_quote, unquoted_append_quote, hpart hfront]

/-! ### Quoted strings -/

/-- A string that is printed between quotes, and what is printed behind it. -/
structure QuotedString where
  contents : List Char
  after : List Char

/-- The text of quoted strings, with what is printed in front of them. -/
def quotedText (before : List Char) (strings : List QuotedString) : List Char :=
  before ++ strings.flatMap fun string => '"' :: string.contents ++ '"' :: string.after

/-- Quoted strings with blanks around them stand for their contents, one after the other. -/
theorem unquoted_quotedText {before : List Char} {strings : List QuotedString}
    (hbefore : Blank before) (hcontents : ∀ string ∈ strings, Tidy string.contents)
    (hafter : ∀ string ∈ strings, Blank string.after) :
    unquoted (quotedText before strings) = strings.flatMap QuotedString.contents := by
  rw [quotedText, unquoted_blank_append hbefore]
  induction strings with
  | nil => rfl
  | cons string strings ih =>
    have hself := (hcontents string List.mem_cons_self).unquoted_eq
    have hrest := ih (fun other hother => hcontents other (List.mem_cons_of_mem _ hother))
      fun other hother => hafter other (List.mem_cons_of_mem _ hother)
    rw [List.flatMap_cons, List.append_assoc, List.cons_append, List.cons_append,
      unquoted_quote_cons, unquoted_append_quote, hself,
      unquoted_blank_append (hafter string List.mem_cons_self), hrest, List.flatMap_cons]

/-! ### Values -/

/-- How a tool may print a value: as it is or cut into quoted strings anywhere, with any blanks
between and around them. -/
inductive PrintedAs (value : List Char) : List Char → Prop where
  | plain {before after : List Char} (hbefore : Blank before) (hafter : Blank after) :
      PrintedAs value (before ++ value ++ after)
  | quoted {before : List Char} {strings : List QuotedString} (hbefore : Blank before)
      (hafter : ∀ string ∈ strings, Blank string.after)
      (hcontents : strings.flatMap QuotedString.contents = value) :
      PrintedAs value (quotedText before strings)

theorem unquoted_of_printedAs {value printed : List Char} (hvisible : Visible value)
    (h : PrintedAs value printed) : unquoted printed = value := by
  cases h with
  | plain hbefore hafter =>
    rw [unquoted_append_blank _ hafter, unquoted_blank_append hbefore, hvisible.tidy.unquoted_eq]
  | @quoted _ strings hbefore hafter hcontents =>
    subst hcontents
    have hparts (string : QuotedString) (hmem : string ∈ strings) : Visible string.contents :=
      fun c hc => hvisible c (List.mem_flatMap.2 ⟨string, hmem, hc⟩)
    exact unquoted_quotedText hbefore (fun string hmem => (hparts string hmem).tidy) hafter

/-- A value without blanks and quotes in it is found however it is printed. -/
theorem txtValue?_of_printedAs {value printed : List Char} (hvalue : value ≠ [])
    (hvisible : Visible value) (h : PrintedAs value printed) :
    txtValue? (String.ofList printed) = some (String.ofList value) := by
  rw [txtValue?, String.toList_ofList, unquoted_of_printedAs hvisible h]
  exact if_neg hvalue

end Esni
