import Esni.Bytes

/-!
# Hexadecimal text

Bytes are shown as two lower-case digits each, the high half first. Offsets are shown with a
least number of digits, filled up with zeros on the left.

## Main definitions

- `Hex.pair` — the two digits of a byte
- `Hex.text` — the digits of a byte string
- `Hex.padded` — the digits of a number, at least as many as asked for
-/

namespace Esni.Hex

/-- The two digits of a byte. -/
def pair (byte : UInt8) : List Char :=
  [Nat.digitChar (byte.toNat / 16), Nat.digitChar (byte.toNat % 16)]

/-- The digits of a byte string, two for each byte. -/
def text (data : Bytes) : String :=
  String.ofList (data.flatMap pair)

/-- The digits of a number, with zeros in front if there are fewer than `width`. -/
def padded (width n : Nat) : List Char :=
  (Nat.toDigits 16 n).leftpad width '0'

@[simp] theorem toList_text (data : Bytes) : (text data).toList = data.flatMap pair := by
  simp [text]

end Esni.Hex
