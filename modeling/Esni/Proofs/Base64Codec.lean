import Esni.Base64
import Esni.Proofs.Numerals
import Esni.Proofs.TextBytes

/-!
# Base64 texts are read back

The text of a byte string is symbols for groups of six bits and then padding. Symbols tell their
values and padding is no symbol, so the reader finds the end of the symbols. The bits in which the
last group is longer than the data are zero. So every byte string is read back from its text, and
the text is made of visible characters that are no quotes.

## Main definitions

- `Base64.sextets` — the values of the symbols
- `Base64.text` — the text as a string

## Main statements

- `Base64.encode_eq` — symbols and padding
- `Base64.decode_encode` — byte strings are read back
- `Base64.visible_text` and `Base64.toUTF8_text` — the characters of a text, and its bytes
-/

namespace Esni.Base64

/-- The values of the symbols of a byte string, six bits each. The last one of a shorter group is
filled up with zeros. -/
def sextets : Bytes → List Nat
  | a :: b :: c :: rest =>
    let n := Bytes.toNat [a, b, c]
    n / 262144 :: n / 4096 % 64 :: n / 64 % 64 :: n % 64 :: sextets rest
  | [a, b] =>
    let n := Bytes.toNat [a, b] * 4
    [n / 4096, n / 64 % 64, n % 64]
  | [a] =>
    let n := Bytes.toNat [a] * 16
    [n / 64, n % 64]
  | [] => []

/-- The number of bytes that are missing in the last group of three. -/
def missing (data : Bytes) : Nat := (3 - data.length % 3) % 3

theorem encode_eq (data : Bytes) :
    encode data = (sextets data).map symbol ++ List.replicate (missing data) pad := by
  induction data using encode.induct with
  | case1 a b c rest ih =>
    have hmissing : missing (a :: b :: c :: rest) = missing rest := by
      simp only [missing, List.length_cons]
      omega
    rw [encode, sextets, hmissing, ih]
    rfl
  | case2 a b => rfl
  | case3 a => rfl
  | case4 => rfl

theorem length_sextets (data : Bytes) :
    (sextets data).length = data.length + (data.length + 2) / 3 := by
  induction data using encode.induct with
  | case1 a b c rest ih =>
    simp only [sextets, List.length_cons, ih]
    omega
  | case2 a b => simp [sextets]
  | case3 a => simp [sextets]
  | case4 => rfl

theorem sextets_lt {data : Bytes} : ∀ value ∈ sextets data, value < 64 := by
  induction data using encode.induct with
  | case1 a b c rest ih =>
    have hn : Bytes.toNat [a, b, c] < 256 ^ 3 := Bytes.toNat_lt [a, b, c]
    intro value hvalue
    simp only [sextets, List.mem_cons] at hvalue
    rcases hvalue with rfl | rfl | rfl | rfl | hrest
    · omega
    · omega
    · omega
    · omega
    · exact ih value hrest
  | case2 a b =>
    have hn : Bytes.toNat [a, b] < 256 ^ 2 := Bytes.toNat_lt [a, b]
    simp only [sextets, List.mem_cons, List.not_mem_nil, or_false]
    omega
  | case3 a =>
    have hn : Bytes.toNat [a] < 256 ^ 1 := Bytes.toNat_lt [a]
    simp only [sextets, List.mem_cons, List.not_mem_nil, or_false]
    omega
  | case4 => simp [sextets]

/-- The values spell the data that they are made from. -/
theorem spellFrom_sextets (done data : Bytes) :
    spellFrom done (sextets data) = done.reverse ++ data := by
  induction data using encode.induct generalizing done with
  | case1 a b c rest ih =>
    have hn : Bytes.toNat [a, b, c] < 256 ^ 3 := Bytes.toNat_lt [a, b, c]
    have hvalue : ((Bytes.toNat [a, b, c] / 262144 * 64 + Bytes.toNat [a, b, c] / 4096 % 64) * 64 +
        Bytes.toNat [a, b, c] / 64 % 64) * 64 + Bytes.toNat [a, b, c] % 64 =
          Bytes.toNat [a, b, c] := by omega
    have hspelled : Bytes.ofNat 3 (Bytes.toNat [a, b, c]) = [a, b, c] := Bytes.ofNat_toNat [a, b, c]
    rw [sextets, spellFrom, ih, hvalue, hspelled, List.reverse_append, List.reverse_reverse,
      List.append_assoc]
    rfl
  | case2 a b =>
    have hn : Bytes.toNat [a, b] < 256 ^ 2 := Bytes.toNat_lt [a, b]
    have hvalue : ((Bytes.toNat [a, b] * 4 / 4096 * 64 + Bytes.toNat [a, b] * 4 / 64 % 64) * 64 +
        Bytes.toNat [a, b] * 4 % 64) / 4 = Bytes.toNat [a, b] := by omega
    have hspelled : Bytes.ofNat 2 (Bytes.toNat [a, b]) = [a, b] := Bytes.ofNat_toNat [a, b]
    rw [sextets, spellFrom, hvalue, hspelled]
  | case3 a =>
    have hn : Bytes.toNat [a] < 256 ^ 1 := Bytes.toNat_lt [a]
    have hvalue : (Bytes.toNat [a] * 16 / 64 * 64 + Bytes.toNat [a] * 16 % 64) / 16 =
        Bytes.toNat [a] := by omega
    have hspelled : Bytes.ofNat 1 (Bytes.toNat [a]) = [a] := Bytes.ofNat_toNat [a]
    rw [sextets, spellFrom, hvalue, hspelled]
  | case4 => simp [sextets, spellFrom]

/-- The last group has no bits that belong to no byte. -/
theorem hasSpareBits_drop_sextets (data : Bytes) :
    hasSpareBits ((sextets data).drop ((data.length - 1) / 3 * 4)) = false := by
  induction data using encode.induct with
  | case1 a b c rest ih =>
    cases rest with
    | nil => simp [sextets, hasSpareBits]
    | cons d rest =>
      have hoffset : ((a :: b :: c :: d :: rest).length - 1) / 3 * 4 =
          ((d :: rest).length - 1) / 3 * 4 + 4 := by
        simp only [List.length_cons]
        omega
      -- The last group of the data is that of what is left, four symbols on.
      rw [hoffset, sextets]
      exact ih
  | case2 a b =>
    simp [sextets, hasSpareBits]
  | case3 a =>
    simp [sextets, hasSpareBits]
  | case4 => rfl

/-! ### Symbols -/

theorem value?_symbol : ∀ value < 64, value? (symbol value) = some value := by decide

theorem isSymbol_of_mem {values : List Nat} (h : ∀ value ∈ values, value < 64) :
    ∀ byte ∈ values.map symbol, isSymbol byte := by
  intro byte hbyte
  obtain ⟨value, hvalue, rfl⟩ := List.mem_map.1 hbyte
  rw [isSymbol, value?_symbol value (h value hvalue)]
  rfl

theorem filterMap_value?_map_symbol {values : List Nat} (h : ∀ value ∈ values, value < 64) :
    (values.map symbol).filterMap value? = values := by
  rw [List.filterMap_map]
  calc values.filterMap (value? ∘ symbol)
    _ = values.filterMap some := List.filterMap_congr fun value hvalue =>
        value?_symbol value (h value hvalue)
    _ = values := List.filterMap_some

/-! ### Reading -/

theorem stray?_eq_none {last : Bytes} (h : last.length ≠ 1) : stray? last = none := by
  match last, h with
  | [], _ => rfl
  | _ :: _ :: _, _ => rfl

theorem notSymbol?_eq_none {symbols : Bytes} (h : ∀ byte ∈ symbols, isSymbol byte) :
    notSymbol? symbols = none := by
  rw [notSymbol?, List.dropWhile_eq_nil_iff.2 h]
  rfl

/-- Padding is taken off a last group that it fills up. -/
theorem lastSymbols_append {symbols : Bytes} (hsymbols : ∀ byte ∈ symbols, isSymbol byte)
    {fill : Nat} (hfull : (symbols.length + fill) % 4 = 0) (hfill : fill ≤ 2) (offset : Nat) :
    lastSymbols offset (symbols ++ List.replicate fill pad) = .ok symbols := by
  have hpad : ¬isSymbol pad := by decide
  have htake : (symbols ++ List.replicate fill pad).takeWhile isSymbol = symbols := by
    rw [List.takeWhile_append_of_pos hsymbols]
    cases fill with
    | zero => simp
    | succ fill => rw [List.replicate_succ, List.takeWhile_cons_of_neg hpad, List.append_nil]
  have hdrop : (symbols ++ List.replicate fill pad).dropWhile isSymbol =
      List.replicate fill pad := by
    rw [List.dropWhile_append_of_pos hsymbols]
    cases fill with
    | zero => rfl
    | succ fill => rw [List.replicate_succ, List.dropWhile_cons_of_neg hpad]
  have hnotfull : ¬(symbols ++ List.replicate fill pad).length % 4 ≠ 0 := by
    rw [List.length_append, List.length_replicate, hfull]
    exact not_not.2 rfl
  rw [lastSymbols, htake, hdrop]
  cases fill with
  | zero =>
    have hone : symbols.length ≠ 1 := by omega
    simp only [List.replicate_zero] at hnotfull ⊢
    rw [if_neg hone, if_neg hnotfull]
  | succ fill =>
    have hpads : (pad :: List.replicate fill pad).all (· = pad) := by
      simp [List.all_replicate]
    have hplace : ¬(symbols.length < 2 ∨ ¬(pad :: List.replicate fill pad).all (· = pad)) := by
      rw [not_or, not_not]
      exact ⟨by omega, hpads⟩
    simp only [List.replicate_succ] at hnotfull ⊢
    rw [if_neg hplace, if_neg hnotfull]

/-- Symbols and the padding that fills up their last group are read as what the values spell, if
the last group has no spare bits. -/
theorem decode_symbols {values : List Nat} (hlt : ∀ value ∈ values, value < 64) {offset fill : Nat}
    (hoffset : (values.length + fill - 1) / 4 * 4 = offset) (hfull : (values.length + fill) % 4 = 0)
    (hfill : fill ≤ 2) (hspare : hasSpareBits (values.drop offset) = false) :
    decode (values.map symbol ++ List.replicate fill pad) = .ok (spellFrom [] values) := by
  have hle : offset ≤ (values.map symbol).length := by
    rw [List.length_map]
    omega
  have hlast : ((values.drop offset).map symbol).length = values.length - offset := by
    rw [List.length_map, List.length_drop]
  have htake : (values.map symbol ++ List.replicate fill pad).take offset =
      (values.take offset).map symbol := by
    rw [List.take_append_of_le_length hle, List.map_take]
  have hdrop : (values.map symbol ++ List.replicate fill pad).drop offset =
      (values.drop offset).map symbol ++ List.replicate fill pad := by
    rw [List.drop_append_of_le_length hle, List.map_drop]
  -- All padding is in the last group, which is as long as the others unless there is none.
  have hstray : stray? ((values.drop offset).map symbol ++ List.replicate fill pad) = none := by
    apply stray?_eq_none
    rw [List.length_append, List.length_replicate, hlast]
    omega
  have hgroups : notSymbol? ((values.take offset).map symbol) = none :=
    notSymbol?_eq_none (isSymbol_of_mem fun value hvalue => hlt value (List.mem_of_mem_take hvalue))
  have hlt' : ∀ value ∈ values.drop offset, value < 64 :=
    fun value hvalue => hlt value (List.mem_of_mem_drop hvalue)
  have hsymbols : lastSymbols offset ((values.drop offset).map symbol ++ List.replicate fill pad) =
      .ok ((values.drop offset).map symbol) := by
    apply lastSymbols_append (isSymbol_of_mem hlt') _ hfill
    rw [hlast]
    omega
  rw [decode, List.length_append, List.length_map, List.length_replicate, hoffset, htake, hdrop,
    hstray, hgroups]
  dsimp only
  rw [hsymbols, ok_bind, filterMap_value?_map_symbol hlt', hspare, ← List.map_append,
    List.take_append_drop, filterMap_value?_map_symbol hlt]
  split
  · contradiction
  · rfl

/-- Byte strings are read back from their texts. -/
theorem decode_encode (data : Bytes) : decode (encode data) = .ok data := by
  have hlength := length_sextets data
  have hmissing : (data.length + (data.length + 2) / 3 + missing data) % 4 = 0 ∧
      missing data ≤ 2 ∧ (data.length + (data.length + 2) / 3 + missing data - 1) / 4 * 4 =
        (data.length - 1) / 3 * 4 := by
    unfold missing
    omega
  obtain ⟨hfull, hfill, hoffset⟩ := hmissing
  rw [← hlength] at hfull hoffset
  rw [encode_eq, decode_symbols sextets_lt hoffset hfull hfill (hasSpareBits_drop_sextets data),
    spellFrom_sextets]
  rfl

/-! ### The text -/

/-- The text of a byte string. -/
def text (data : Bytes) : String := String.ofList ((encode data).map Char.ofUInt8)

/-- What holds of the characters of all symbols and of the padding holds in every text. -/
theorem forall_mem_text {P : Char → Prop}
    (hsymbol : ∀ value < 64, P (Char.ofUInt8 (symbol value))) (hpad : P (Char.ofUInt8 pad))
    (data : Bytes) : ∀ c ∈ (text data).toList, P c := by
  intro c hc
  rw [text, String.toList_ofList] at hc
  obtain ⟨byte, hbyte, rfl⟩ := List.mem_map.1 hc
  rw [encode_eq] at hbyte
  rcases List.mem_append.1 hbyte with hvalues | hfill
  · obtain ⟨value, hvalue, rfl⟩ := List.mem_map.1 hvalues
    exact hsymbol value (sextets_lt value hvalue)
  · obtain rfl := List.eq_of_mem_replicate hfill
    exact hpad

theorem visible_text (data : Bytes) : Visible (text data).toList :=
  forall_mem_text (by decide) (by decide) data

theorem ascii_text (data : Bytes) : ∀ c ∈ (text data).toList, c.toNat < 128 :=
  forall_mem_text (by decide) (by decide) data

theorem toList_text_ne_nil {data : Bytes} (h : data ≠ []) : (text data).toList ≠ [] := by
  intro htext
  rw [text, String.toList_ofList, List.map_eq_nil_iff] at htext
  have hdata := decode_encode data
  rw [htext] at hdata
  exact h (Except.ok.inj (hdata.symm.trans (decode_encode [])))

/-- The bytes of the text are the symbols and the padding. -/
theorem toUTF8_text (data : Bytes) : (text data).toUTF8.data.toList = encode data := by
  have hbyte : Char.toUInt8 ∘ Char.ofUInt8 = id := by
    funext byte
    simp [Char.toUInt8, Char.ofUInt8]
  rw [toUTF8_eq_utf8, utf8_of_ascii (ascii_text data), text, String.toList_ofList, List.map_map,
    hbyte, List.map_id]

end Esni.Base64
