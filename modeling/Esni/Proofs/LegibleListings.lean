import Esni.Listing
import Mathlib.Data.List.Basic

/-!
# Reading listings back

A listing tells its elements apart if no text of an element runs into what stands behind it. Where a
character that ends a word follows, the text has to show which element it is, and where it ends
itself. Words do so, for they have no such character inside. A text in braces may do so as well,
though it has commas inside that do not separate elements. And no text may be empty or begin like
the end of the listing, or a listing of one element could be mistaken for one of none.

## Main definitions

- `endsWord` and `isWord` — the characters behind words, and texts without them
- `Legible` — texts that show their elements in front of such a character

## Main statements

- `append_inj_of_isWord` — a word can be told from what stands behind it
- `Legible.of_words` — different words are legible
- `Legible.listing_append_inj` — a listing shows its elements, and where it ends
-/

namespace Esni

/-- The characters that can follow a word. -/
def endsWord (c : Char) : Bool := c = ',' || c = ']' || c = '}'

/-- A text with none of these characters. -/
def isWord (text : List Char) : Bool := text.all (!endsWord ·)

section Words

variable {word word' rest rest' : List Char} {c d : Char}

theorem isWord_iff : isWord word ↔ ∀ c ∈ word, endsWord c = false := by
  simp [isWord]

theorem isWord_append : isWord (word ++ word') ↔ isWord word ∧ isWord word' := by
  simp [isWord]

theorem takeWhile_of_isWord (hword : isWord word) (hc : endsWord c) :
    (word ++ c :: rest).takeWhile (!endsWord ·) = word := by
  have hinside : ∀ d ∈ word, (!endsWord d) = true := by
    intro d hd
    rw [isWord_iff.1 hword d hd, Bool.not_false]
  rw [List.takeWhile_append_of_pos hinside, List.takeWhile_cons_of_neg (by simpa using hc),
    List.append_nil]

/-- A word reaches up to the first character that ends one, so it can be told from what stands
behind it. -/
theorem append_inj_of_isWord (hword : isWord word) (hword' : isWord word') (hc : endsWord c)
    (hd : endsWord d) (h : word ++ c :: rest = word' ++ d :: rest') :
    word = word' ∧ c :: rest = d :: rest' := by
  have hsame : word = word' := by
    calc word = (word ++ c :: rest).takeWhile (!endsWord ·) := (takeWhile_of_isWord hword hc).symm
      _ = (word' ++ d :: rest').takeWhile (!endsWord ·) := by rw [h]
      _ = word' := takeWhile_of_isWord hword' hd
  rw [hsame] at h
  exact ⟨hsame, List.append_cancel_left h⟩

end Words

/-- Texts that show their elements where a character that ends a word follows. -/
structure Legible {α : Type} (text : α → String) : Prop where
  /-- A text begins with another character, so it is not mistaken for the end of the listing. -/
  begins : ∀ item, ∃ c rest, (text item).toList = c :: rest ∧ endsWord c = false
  /-- A text shows its element, and where it ends itself. -/
  append_inj : ∀ {item item' c d rest rest'}, endsWord c → endsWord d →
    (text item).toList ++ c :: rest = (text item').toList ++ d :: rest' →
      item = item' ∧ c :: rest = d :: rest'

/-- What stands in a listing behind its first element: the others, each behind a comma, and the
closing bracket. -/
def behindFirst {α : Type} (text : α → String) (others : List α) : List Char :=
  others.flatMap (fun item => ',' :: ' ' :: (text item).toList) ++ [']']

section Shape

variable {α : Type} (text : α → String)

@[simp] theorem behindFirst_nil : behindFirst text [] = [']'] := rfl

@[simp] theorem behindFirst_cons (item : α) (others : List α) :
    behindFirst text (item :: others) =
      ',' :: ' ' :: ((text item).toList ++ behindFirst text others) := by
  simp [behindFirst]

/-- Behind an element a word can only be over. -/
theorem exists_behindFirst_append (others : List α) (rest : List Char) :
    ∃ c rest', endsWord c ∧ behindFirst text others ++ rest = c :: rest' := by
  cases others with
  | nil => exact ⟨']', rest, rfl, rfl⟩
  | cons item others => exact ⟨',', _, rfl, by rw [behindFirst_cons, List.cons_append]⟩

theorem toList_intercalate_cons (item : α) (others : List α) :
    (", ".intercalate ((item :: others).map text)).toList =
      (text item).toList ++ others.flatMap fun other => ',' :: ' ' :: (text other).toList := by
  induction others generalizing item with
  | nil => rw [List.map_singleton, String.intercalate_singleton, List.flatMap_nil, List.append_nil]
  | cons next others ih =>
    rw [List.map_cons, List.map_cons, String.intercalate_cons_cons, ← List.map_cons,
      String.toList_append, String.toList_append, ih next, List.flatMap_cons]
    simp

theorem toList_listing_cons (item : α) (others : List α) :
    (listing ((item :: others).map text)).toList =
      '[' :: ((text item).toList ++ behindFirst text others) := by
  rw [listing, String.toList_append, String.toList_append, toList_intercalate_cons, behindFirst]
  simp

end Shape

namespace Legible

variable {α β : Type} {text : α → String} {item item' : α} {items items' : List α}
  {rest rest' : List Char}

/-- Words are legible if different elements have different ones. -/
theorem of_words (hinjective : Function.Injective text)
    (hwords : ∀ item, isWord (text item).toList ∧ text item ≠ "") : Legible text where
  begins item := by
    obtain ⟨hword, hne⟩ := hwords item
    cases htext : (text item).toList with
    | nil => exact absurd (String.toList_eq_nil_iff.1 htext) hne
    | cons c rest =>
      rw [htext] at hword
      exact ⟨c, rest, rfl, isWord_iff.1 hword c List.mem_cons_self⟩
  append_inj hc hd h := by
    obtain ⟨htext, hrest⟩ := append_inj_of_isWord (hwords _).1 (hwords _).1 hc hd h
    exact ⟨hinjective (String.toList_inj.1 htext), hrest⟩

theorem comp (htext : Legible text) {view : β → α} (hview : Function.Injective view) :
    Legible fun item => text (view item) where
  begins item := htext.begins (view item)
  append_inj hc hd h := by
    obtain ⟨hitem, hrest⟩ := htext.append_inj hc hd h
    exact ⟨hview hitem, hrest⟩

/-- An element can be told from the others behind it. -/
theorem append_behindFirst_inj (htext : Legible text)
    (h : (text item).toList ++ (behindFirst text items ++ rest) =
      (text item').toList ++ (behindFirst text items' ++ rest')) :
    item = item' ∧ behindFirst text items ++ rest = behindFirst text items' ++ rest' := by
  obtain ⟨c, more, hc, hmore⟩ := exists_behindFirst_append text items rest
  obtain ⟨d, more', hd, hmore'⟩ := exists_behindFirst_append text items' rest'
  rw [hmore, hmore'] at h ⊢
  exact htext.append_inj hc hd h

theorem behindFirst_append_inj (htext : Legible text)
    (h : behindFirst text items ++ rest = behindFirst text items' ++ rest') :
    items = items' ∧ rest = rest' := by
  -- Behind an element there is a comma exactly if there is another element.
  induction items generalizing items' with
  | nil =>
    cases items' with
    | nil => exact ⟨rfl, List.append_cancel_left h⟩
    | cons item' items' => simp at h
  | cons item items ih =>
    cases items' with
    | nil => simp at h
    | cons item' items' =>
      simp only [behindFirst_cons, List.cons_append, List.append_assoc, List.cons.injEq,
        true_and] at h
      obtain ⟨rfl, hothers⟩ := htext.append_behindFirst_inj h
      obtain ⟨rfl, hrest⟩ := ih hothers
      exact ⟨rfl, hrest⟩

theorem listing_cons_append_ne (htext : Legible text) (item : α) (others : List α) :
    (listing ((item :: others).map text)).toList ++ rest ≠ (listing []).toList ++ rest' := by
  obtain ⟨c, more, hmore, hc⟩ := htext.begins item
  rw [toList_listing_cons, hmore]
  intro h
  have hclosing : c = ']' := (List.cons.inj (List.cons.inj h).2).1
  rw [hclosing] at hc
  cases hc

/-- A listing of legible texts shows its elements, and where it ends itself. -/
theorem listing_append_inj (htext : Legible text)
    (h : (listing (items.map text)).toList ++ rest =
      (listing (items'.map text)).toList ++ rest') : items = items' ∧ rest = rest' := by
  cases items with
  | nil =>
    cases items' with
    | nil => exact ⟨rfl, List.append_cancel_left h⟩
    | cons item' items' => exact absurd h.symm (htext.listing_cons_append_ne item' items')
  | cons item items =>
    cases items' with
    | nil => exact absurd h (htext.listing_cons_append_ne item items)
    | cons item' items' =>
      rw [toList_listing_cons, toList_listing_cons, List.cons_append, List.cons_append,
        List.append_assoc, List.append_assoc] at h
      obtain ⟨rfl, hothers⟩ := htext.append_behindFirst_inj (List.cons.inj h).2
      obtain ⟨rfl, hrest⟩ := htext.behindFirst_append_inj hothers
      exact ⟨rfl, hrest⟩

end Legible

end Esni
