import Esni.Hex

/-!
# Hex dumps

A hex dump shows sixteen bytes on each line: the offset of the first one, the bytes in
hexadecimal with a wider gap in the middle, and the bytes as characters between two bars. The last
line may be shorter; its missing bytes are left blank, so that the bars of all lines start in one
column.

## Main definitions

- `HexDump.row` — one line
- `hexDump` — the dump of a byte string
-/

namespace Esni

namespace HexDump

def width : Nat := 16

/-- The character of a byte: the byte itself if it is a blank or a visible ASCII character, and a
dot otherwise. -/
def shown (byte : UInt8) : Char :=
  if 0x20 ≤ byte ∧ byte ≤ 0x7e then Char.ofUInt8 byte else '.'

/-- The column of the byte at place `j` of a line, with the gap before the ninth byte. -/
def column (bytes : Bytes) (j : Nat) : List Char :=
  (if j = 8 then [' '] else []) ++
    match bytes[j]? with
    | some byte => ' ' :: Hex.pair byte
    | none => [' ', ' ', ' ']

/-- The line of up to sixteen bytes that start at `offset`. -/
def row (offset : Nat) (bytes : Bytes) : List Char :=
  Hex.padded 8 offset ++ ' ' :: (List.range width).flatMap (column bytes) ++
    ' ' :: ' ' :: '|' :: bytes.map shown ++ ['|', '\n']

/-- The lines of the data that starts at `offset`, behind those of `done`. -/
def rowsFrom (done : String) (offset : Nat) (data : Bytes) : String :=
  if data = [] then done
  else
    rowsFrom (done ++ String.ofList (row offset (data.take width))) (offset + width)
      (data.drop width)
termination_by data.length
decreasing_by
  rename_i h
  have := List.length_pos_iff.2 h
  simp only [List.length_drop, width]
  omega

end HexDump

def hexDump (data : Bytes) : String := HexDump.rowsFrom "" 0 data

end Esni
