/-!
# Blank characters

The characters with the Unicode property White_Space: controls of the layout, the blanks of
several widths, and the separators of lines and paragraphs.

## Main definitions

- `isBlank` — whether a character has the property
- `trim` — a text without the blank characters at its ends
-/

namespace Esni

/-- The first and last codes of the ranges of blank characters. -/
def blankRanges : List (Nat × Nat) :=
  [(0x0009, 0x000d), (0x0020, 0x0020), (0x0085, 0x0085), (0x00a0, 0x00a0), (0x1680, 0x1680),
    (0x2000, 0x200a), (0x2028, 0x2029), (0x202f, 0x202f), (0x205f, 0x205f), (0x3000, 0x3000)]

/-- Whether a character is blank. -/
def isBlank (c : Char) : Bool :=
  blankRanges.any fun (first, last) => first ≤ c.toNat && c.toNat ≤ last

/-- The text without the blank characters at its start and its end. -/
def trim (text : List Char) : List Char :=
  ((text.dropWhile isBlank).reverse.dropWhile isBlank).reverse

end Esni
