import Esni.CipherSuites
import Esni.KeyShare
import Esni.Proofs.LegibleListings
import Esni.Proofs.Numerals

/-!
# What the listings of key shares and of cipher suites show

A code is shown by its name or by its digits. From this text it can be told which code it was, as
long as the names of a table are distinct and none of them looks like digits of a code without a
name. Names and digits are words, so a listing of cipher suites is legible. A key share is shown
with the name of its group and the digits of its key in braces. The first comma ends the name and
the closing brace ends the digits, however many there are, so a listing of key shares is legible
too.

## Main definitions

- `CodeTable.Unambiguous` — a table whose names are words that stand for one code each

## Main statements

- `Hex.text_injective` and `CodeTable.unknownText_injective` — bytes and codes by their digits
- `CodeTable.Unambiguous.legible` — codes by their names or digits
- `KeyShare.legible` and `CipherSuite.legible` — the elements of the two kinds of listings
- `listings_lossless` — the lists are known from their texts
-/

namespace Esni

namespace Hex

theorem digitChar_inj_of_lt :
    ∀ d < 16, ∀ e < 16, Nat.digitChar d = Nat.digitChar e → d = e := by decide

theorem endsWord_digitChar : ∀ d < 16, endsWord (Nat.digitChar d) = false := by decide

theorem pair_injective : Function.Injective pair := by
  intro byte byte' h
  have hbyte := byte.toNat_lt
  have hbyte' := byte'.toNat_lt
  obtain ⟨hhigh, hrest⟩ := List.cons.inj h
  have hhalf := digitChar_inj_of_lt _ (by omega) _ (by omega) hhigh
  have hother := digitChar_inj_of_lt _ (by omega) _ (by omega) (List.cons.inj hrest).1
  apply UInt8.toNat_inj.1
  omega

theorem flatMap_pair_injective : Function.Injective (List.flatMap pair) := by
  intro data data' h
  induction data generalizing data' with
  | nil =>
    cases data' with
    | nil => rfl
    | cons byte' data' => cases h
  | cons byte data ih =>
    cases data' with
    | nil => cases h
    | cons byte' data' =>
      obtain ⟨hpair, hothers⟩ := List.append_inj h rfl
      rw [pair_injective hpair, ih hothers]

/-- Bytes are known from their digits. -/
theorem text_injective : Function.Injective text := by
  intro data data' h
  apply flatMap_pair_injective
  rw [← toList_text, h, toList_text]

theorem isWord_text (data : Bytes) : isWord (text data).toList := by
  rw [toList_text, isWord_iff]
  intro c hc
  obtain ⟨byte, _, hc⟩ := List.mem_flatMap.1 hc
  have hbyte := byte.toNat_lt
  rcases List.mem_pair.1 hc with rfl | rfl
  · exact endsWord_digitChar _ (by omega)
  · exact endsWord_digitChar _ (by omega)

end Hex

namespace CodeTable

variable {table : CodeTable} {code : UInt16} {name : String}

/-- A table in which every name is a word that stands for one code, and none begins like the text
of a code without a name. -/
structure Unambiguous (table : CodeTable) : Prop where
  distinct : (table.map (·.2)).Nodup
  not_unknown : ∀ entry ∈ table, ¬"UNKNOWN(0x".toList <+: entry.2.toList
  words : ∀ entry ∈ table, isWord entry.2.toList ∧ entry.2 ≠ ""

theorem toList_unknownText (code : UInt16) :
    (unknownText code).toList =
      "UNKNOWN(0x".toList ++ ((Hex.text (Bytes.ofUInt16 code)).toList ++ [')']) := by
  rw [unknownText, String.toList_append, String.toList_append, List.append_assoc]
  rfl

/-- A code without a name is known from its digits. -/
theorem unknownText_injective : Function.Injective unknownText := by
  intro code code' h
  have hlist := congrArg String.toList h
  rw [toList_unknownText, toList_unknownText] at hlist
  have hdigits := List.append_cancel_right (List.append_cancel_left hlist)
  exact Bytes.ofUInt16_injective (Hex.text_injective (String.toList_inj.1 hdigits))

theorem isWord_unknownText (code : UInt16) : isWord (unknownText code).toList := by
  rw [toList_unknownText, isWord_append, isWord_append]
  exact ⟨by decide, Hex.isWord_text _, by decide⟩

theorem unknownText_ne_empty (code : UInt16) : unknownText code ≠ "" := by
  simp [unknownText]

/-- A code is shown by a name that the table has for it, or by its digits. -/
theorem mem_or_text_eq_unknownText (table : CodeTable) (code : UInt16) :
    (code, table.text code) ∈ table ∨ table.text code = unknownText code := by
  cases hname : table.name? code with
  | none =>
    rw [text, hname, Option.getD_none]
    exact .inr rfl
  | some name =>
    obtain ⟨before, after, htable, _⟩ := List.lookup_eq_some_iff.1 hname
    rw [text, hname, Option.getD_some, htable]
    exact .inl (by simp)

namespace Unambiguous

theorem name_ne_unknownText (h : table.Unambiguous) (hmem : (code, name) ∈ table)
    (other : UInt16) : name ≠ unknownText other := by
  intro hname
  apply h.not_unknown _ hmem
  rw [hname, toList_unknownText]
  exact List.prefix_append _ _

/-- A code is known from its text, whether the table has a name for it or not. -/
theorem text_injective (h : table.Unambiguous) : Function.Injective table.text := by
  intro code code' htext
  -- Names are not shown for codes without a name, so equal texts are of the same kind.
  rcases table.mem_or_text_eq_unknownText code with hname | hunknown <;>
    rcases table.mem_or_text_eq_unknownText code' with hname' | hunknown'
  · exact (Prod.mk.inj (List.inj_on_of_nodup_map h.distinct hname hname' htext)).1
  · exact absurd (htext.trans hunknown') (h.name_ne_unknownText hname code')
  · exact absurd (htext.symm.trans hunknown) (h.name_ne_unknownText hname' code)
  · exact unknownText_injective (hunknown.symm.trans (htext.trans hunknown'))

theorem legible (h : table.Unambiguous) : Legible table.text := by
  refine .of_words h.text_injective fun code => ?_
  rcases table.mem_or_text_eq_unknownText code with hname | hunknown
  · exact h.words _ hname
  · rw [hunknown]
    exact ⟨isWord_unknownText code, unknownText_ne_empty code⟩

end Unambiguous

end CodeTable

namespace NamedGroup

theorem names_unambiguous : names.Unambiguous where
  distinct := by decide
  not_unknown := by decide
  words := by decide

theorem legible : Legible text :=
  names_unambiguous.legible.comp fun ⟨_⟩ ⟨_⟩ hcode => congrArg mk hcode

end NamedGroup

namespace CipherSuite

theorem names_unambiguous : names.Unambiguous where
  distinct := by decide
  not_unknown := by decide
  words := by decide

theorem legible : Legible text :=
  names_unambiguous.legible.comp fun ⟨_⟩ ⟨_⟩ hcode => congrArg mk hcode

end CipherSuite

namespace KeyShare

theorem toList_text (entry : KeyShare) :
    entry.text.toList = '\x7b' :: ("Group:".toList ++ (entry.group.text.toList ++
      ',' :: (" Value:".toList ++ ((Hex.text entry.key).toList ++ ['\x7d'])))) := by
  simp only [text, String.toList_append, List.append_assoc]
  simp

/-- The comma behind the group and the closing brace behind the key end words, so both can be told
from what stands behind them. -/
theorem legible : Legible text where
  begins entry := ⟨'\x7b', _, entry.toList_text, rfl⟩
  append_inj {entry entry' c d rest rest'} _ _ h := by
    obtain ⟨group, key⟩ := entry
    obtain ⟨group', key'⟩ := entry'
    simp only [toList_text, List.cons_append, List.append_assoc, List.cons.injEq, true_and,
      List.append_cancel_left_eq, List.nil_append] at h
    obtain ⟨rfl, hvalue⟩ := NamedGroup.legible.append_inj rfl rfl h
    simp only [List.cons.injEq, true_and, List.append_cancel_left_eq] at hvalue
    obtain ⟨hkey, hrest⟩ :=
      append_inj_of_isWord (Hex.isWord_text key) (Hex.isWord_text key') rfl rfl hvalue
    obtain rfl := Hex.text_injective (String.toList_inj.1 hkey)
    exact ⟨rfl, (List.cons.inj hrest).2⟩

end KeyShare

/-- A listing of key shares shows them, and where it ends itself. -/
theorem KeyShareList.text_append_inj {list list' : KeyShareList} {rest rest' : List Char}
    (h : list.text.toList ++ rest = list'.text.toList ++ rest') : list = list' ∧ rest = rest' := by
  obtain ⟨entries, _⟩ := list
  obtain ⟨entries', _⟩ := list'
  obtain ⟨rfl, hrest⟩ := KeyShare.legible.listing_append_inj h
  exact ⟨rfl, hrest⟩

theorem CipherSuites.text_append_inj {suites suites' : List CipherSuite} {rest rest' : List Char}
    (h : (text suites).toList ++ rest = (text suites').toList ++ rest') :
    suites = suites' ∧ rest = rest' :=
  CipherSuite.legible.listing_append_inj h

/-- Lists of key shares that are shown by the same text are equal, and so are lists of cipher
suites: the text shows every group, every byte of every key and every suite, in their order. -/
theorem listings_lossless :
    (∀ list list' : KeyShareList, list.text = list'.text → list = list') ∧
      ∀ suites suites' : List CipherSuite,
        CipherSuites.text suites = CipherSuites.text suites' → suites = suites' := by
  constructor
  · intro list list' h
    exact (KeyShareList.text_append_inj (congrArg (·.toList ++ []) h)).1
  · intro suites suites' h
    exact (CipherSuites.text_append_inj (congrArg (·.toList ++ []) h)).1

/-- A group with a name, and one without a name that has an empty key. -/
def mixedShares : KeyShareList := ⟨[⟨⟨0x1d⟩, [0x0a, 0xff]⟩, ⟨⟨0x0a0a⟩, []⟩], by decide⟩

/-- The list that is read from the bytes of these key shares. -/
def rereadShares : KeyShareList :=
  (KeyShareList.decode [0, 0x1d, 0, 2, 0x0a, 0xff, 0x0a, 0x0a, 0, 0]).toOption.getD .empty

/-- The list that is read from the bytes of a suite without a name and of one with a name. -/
def rereadSuites : List CipherSuite :=
  ((CipherSuites.decode [0, 4, 0x0a, 0x0a, 0x13, 0x01]).map (·.1)).toOption.getD []

/-- The lists that were read are shown by the same texts as those that were written, so they are the
same lists. -/
theorem listings_lossless_reread :
    mixedShares.text =
        "[\x7bGroup:x25519, Value:0aff\x7d, \x7bGroup:UNKNOWN(0x0a0a), Value:\x7d]" ∧
      rereadShares.text = mixedShares.text ∧ rereadShares = mixedShares ∧
      CipherSuites.text rereadSuites = "[UNKNOWN(0x0a0a), TLS_AES_128_GCM_SHA256]" ∧
      CipherSuites.text rereadSuites = CipherSuites.text [⟨0x0a0a⟩, ⟨0x1301⟩] ∧
      rereadSuites = [⟨0x0a0a⟩, ⟨0x1301⟩] := by
  obtain ⟨hshares, hsuites⟩ := listings_lossless
  have hreread : rereadShares.text = mixedShares.text := by decide +kernel
  have hrereadSuites :
      CipherSuites.text rereadSuites = CipherSuites.text [⟨0x0a0a⟩, ⟨0x1301⟩] := by decide +kernel
  exact ⟨by decide +kernel, hreread, hshares _ _ hreread, by decide +kernel, hrereadSuites,
    hsuites _ _ hrereadSuites⟩

end Esni
