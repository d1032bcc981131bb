import Esni.Bytes

/-!
# Base64

Base64 writes three bytes as four symbols of six bits each. A last group of one or two bytes takes
two or three symbols and is filled up with `=`. Reading is strict: the padding must be there, and
the bits of the last symbol that belong to no byte must be zero, so each byte string has one form.

A faulty text is reported by the first symbol that does not belong where it stands, with one
exception: if a single byte is left behind the groups of four and it can be neither a symbol nor
padding, as the end of a line cannot, it is reported before all others.

## Main definitions

- `Base64.encode` — the text of a byte string
- `Base64.decode` — the byte string of a text
- `Base64Error` — what can be wrong with a text
-/

namespace Esni

inductive Base64Error where
  /-- A byte does not belong where it stands. -/
  | invalidSymbol (byte : UInt8) (offset : Nat)
  /-- A single symbol is left at the end. -/
  | invalidLength (length : Nat)
  /-- The last symbol has bits that belong to no byte. -/
  | invalidLastSymbol (byte : UInt8) (offset : Nat)
  | invalidPadding
  deriving DecidableEq

def Base64Error.message : Base64Error → String
  | invalidSymbol byte offset => s!"Invalid symbol {byte.toNat}, offset {offset}."
  | invalidLength length => s!"Invalid input length: {length}"
  | invalidLastSymbol byte offset => s!"Invalid last symbol {byte.toNat}, offset {offset}."
  | invalidPadding => "Invalid padding"

namespace Base64

/-- The byte that fills up the last group. -/
def pad : UInt8 := '='.toUInt8

/-- The symbol of a value below 64: letters, digits, plus and slash. -/
def symbol (value : Nat) : UInt8 :=
  if value < 26 then 'A'.toUInt8 + UInt8.ofNat value
  else if value < 52 then 'a'.toUInt8 + UInt8.ofNat (value - 26)
  else if value < 62 then '0'.toUInt8 + UInt8.ofNat (value - 52)
  else if value = 62 then '+'.toUInt8
  else '/'.toUInt8

def value? (byte : UInt8) : Option Nat :=
  if 'A'.toUInt8 ≤ byte ∧ byte ≤ 'Z'.toUInt8 then some (byte.toNat - 'A'.toNat)
  else if 'a'.toUInt8 ≤ byte ∧ byte ≤ 'z'.toUInt8 then some (byte.toNat - 'a'.toNat + 26)
  else if '0'.toUInt8 ≤ byte ∧ byte ≤ '9'.toUInt8 then some (byte.toNat - '0'.toNat + 52)
  else if byte = '+'.toUInt8 then some 62
  else if byte = '/'.toUInt8 then some 63
  else none

def isSymbol (byte : UInt8) : Bool := (value? byte).isSome

def encode : Bytes → Bytes
  | a :: b :: c :: rest =>
    let n := Bytes.toNat [a, b, c]
    symbol (n / 262144) :: symbol (n / 4096 % 64) :: symbol (n / 64 % 64) :: symbol (n % 64) ::
      encode rest
  | [a, b] =>
    let n := Bytes.toNat [a, b] * 4
    [symbol (n / 4096), symbol (n / 64 % 64), symbol (n % 64), pad]
  | [a] =>
    let n := Bytes.toNat [a] * 16
    [symbol (n / 64), symbol (n % 64), pad, pad]
  | [] => []

/-- The bytes of groups of symbol values, behind those of `done`, which is in reverse order. In
the last group of two or three the lowest bits belong to no byte. -/
def spellFrom (done : Bytes) : List Nat → Bytes
  | a :: b :: c :: d :: rest =>
    spellFrom ((Bytes.ofNat 3 (((a * 64 + b) * 64 + c) * 64 + d)).reverse ++ done) rest
  | [a, b, c] => done.reverse ++ Bytes.ofNat 2 (((a * 64 + b) * 64 + c) / 4)
  | [a, b] => done.reverse ++ Bytes.ofNat 1 ((a * 64 + b) / 16)
  | _ => done.reverse

/-- The byte that is left alone behind the groups of four, if it can be neither a symbol nor
padding. -/
def stray? : Bytes → Option UInt8
  | [byte] => if byte = pad ∨ isSymbol byte then none else some byte
  | _ => none

/-- The first byte that is no symbol, and its offset. -/
def notSymbol? (text : Bytes) : Option (UInt8 × Nat) :=
  (text.dropWhile isSymbol).head?.map fun byte => (byte, (text.takeWhile isSymbol).length)

/-- Whether the symbols of the last group have bits that belong to no byte. -/
def hasSpareBits (values : List Nat) : Bool :=
  match values with
  | [_, b] => b % 16 ≠ 0
  | [_, _, c] => c % 4 ≠ 0
  | _ => false

/-- The symbols of the last group of one to four bytes, which starts at `offset`. Only padding may
follow them, and only after the second. -/
def lastSymbols (offset : Nat) (group : Bytes) : Except Base64Error Bytes :=
  let symbols := group.takeWhile isSymbol
  match group.dropWhile isSymbol with
  | byte :: more =>
    if symbols.length < 2 ∨ ¬ (byte :: more).all (· = pad) then
      .error (.invalidSymbol byte (offset + symbols.length))
    else if group.length % 4 ≠ 0 then .error .invalidPadding
    else .ok symbols
  | [] =>
    if symbols.length = 1 then .error (.invalidLength (offset + 1))
    else if group.length % 4 ≠ 0 then .error .invalidPadding
    else .ok symbols

/-- The byte string of a text. The last group of one to four bytes is looked at after all others. -/
def decode (text : Bytes) : Except Base64Error Bytes :=
  let offset := (text.length - 1) / 4 * 4
  let groups := text.take offset
  let last := text.drop offset
  match stray? last, notSymbol? groups with
  | some byte, _ => .error (.invalidSymbol byte offset)
  | none, some (byte, place) => .error (.invalidSymbol byte place)
  | none, none => do
    let symbols ← lastSymbols offset last
    match symbols.getLast?, hasSpareBits (symbols.filterMap value?) with
    | some byte, true => .error (.invalidLastSymbol byte (offset + symbols.length - 1))
    | _, _ => .ok (spellFrom [] ((groups ++ symbols).filterMap value?))

end Base64

end Esni
