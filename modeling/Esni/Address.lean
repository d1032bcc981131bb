import Esni.Hex
import Esni.Items

/-!
# Internet addresses

An address is four or sixteen bytes. On the wire a family tag comes first and tells which. In text
an IPv4 address has four decimal numbers, and an IPv6 address has its canonical form: eight groups
in lower-case hexadecimal without leading zeros, where the first longest run of two or more zero
groups is left out, and where an embedded IPv4 address is shown as such.

## Main definitions

- `Address` — the two families
- `Address.wire` and `Address.reader` — the tagged form
- `Address.text` — the canonical text
-/

namespace Esni

inductive Address where
  | ipv4 (octets : Octets 4)
  | ipv6 (octets : Octets 16)
  deriving DecidableEq

inductive AddressError where
  /-- A tag is neither of the two families. -/
  | unsupportedFamily (family : UInt8)
  | truncatedAddress
  deriving DecidableEq

def AddressError.message : AddressError → String
  | unsupportedFamily family => s!"unsupported address family {family.toNat}"
  | truncatedAddress => "truncated address"

namespace Address

def ipv4Family : UInt8 := 4

def ipv6Family : UInt8 := 6

def family : Address → UInt8
  | ipv4 _ => ipv4Family
  | ipv6 _ => ipv6Family

def octets : Address → Bytes
  | ipv4 octets => octets.val
  | ipv6 octets => octets.val

/-- The address on the wire: the tag and the bytes. -/
def wire (address : Address) : Bytes := address.family :: address.octets

def encodedLength : Address → Nat
  | ipv4 _ => 5
  | ipv6 _ => 17

@[simp] theorem length_wire (address : Address) :
    address.wire.length = address.encodedLength := by
  cases address <;> rename_i octets <;> simp [wire, Address.octets, encodedLength, octets.property]

/-- The tagged address at the front of the data and what follows it. A tag of no family is
reported even if nothing follows it. -/
def read : Bytes → Except AddressError (Address × Bytes)
  | [] => .error .truncatedAddress
  | tag :: data =>
    if tag = ipv4Family then
      orFault .truncatedAddress <|
        (Bytes.cut? 4 data).map fun (octets, rest) => (ipv4 octets, rest)
    else if tag = ipv6Family then
      orFault .truncatedAddress <|
        (Bytes.cut? 16 data).map fun (octets, rest) => (ipv6 octets, rest)
    else .error (.unsupportedFamily tag)

theorem eq_wire_append_of_read {data rest : Bytes} {address : Address}
    (h : read data = .ok (address, rest)) : data = address.wire ++ rest := by
  unfold read at h
  split at h
  · cases h
  · split at h
    · rename_i htag
      obtain ⟨⟨octets, _⟩, hcut, h⟩ := Option.map_eq_some_iff.1 (orFault_eq_ok_iff.1 h)
      cases h
      simp [wire, family, Address.octets, htag, Bytes.cut?_eq_some_iff.1 hcut]
    · split at h
      · rename_i htag
        obtain ⟨⟨octets, _⟩, hcut, h⟩ := Option.map_eq_some_iff.1 (orFault_eq_ok_iff.1 h)
        cases h
        simp [wire, family, Address.octets, htag, Bytes.cut?_eq_some_iff.1 hcut]
      · cases h

def reader : ItemReader AddressError Address where
  read := read
  shrinks h := by
    have := congrArg List.length (eq_wire_append_of_read h)
    simp only [wire, List.length_append, List.length_cons] at this
    omega

/-- Four decimal numbers with points between them. -/
def dotted (octets : Bytes) : String :=
  ".".intercalate (octets.map fun byte => toString byte.toNat)

/-- The sixteen-bit groups of an address, two bytes each. -/
def groups : Bytes → List Nat
  | high :: low :: rest => (high.toNat * 256 + low.toNat) :: groups rest
  | _ => []

/-- The number of zero groups at the front. -/
def zeroRun (groups : List Nat) : Nat := (groups.takeWhile (· = 0)).length

/-- Where the first longest run of zero groups starts, and its length. -/
def longestZeroRun (groups : List Nat) : Nat × Nat :=
  (List.range groups.length).foldl
    (fun best start =>
      let run := zeroRun (groups.drop start)
      if best.2 < run then (start, run) else best)
    (0, 0)

/-- Groups in hexadecimal with colons between them. -/
def colons (groups : List Nat) : String :=
  ":".intercalate (groups.map fun group => String.ofList (Nat.toDigits 16 group))

/-- Groups with the first longest run of zeros left out, if it has two or more. -/
def compressed (groups : List Nat) : String :=
  let (start, run) := longestZeroRun groups
  if 1 < run then colons (groups.take start) ++ "::" ++ colons (groups.drop (start + run))
  else colons groups

/-- What the sixteen-byte form of a four-byte address starts with. -/
def ipv4Mapped : Bytes := List.replicate 10 0 ++ [0xff, 0xff]

def text : Address → String
  | ipv4 octets => dotted octets.val
  | ipv6 octets =>
    if octets.val.take 12 = ipv4Mapped then "::ffff:" ++ dotted (octets.val.drop 12)
    else compressed (groups octets.val)

/-- The canonical text of the address behind the name of its family. -/
def labelled : Address → String
  | ipv4 octets => "IPv4:" ++ text (ipv4 octets)
  | ipv6 octets => "IPv6:" ++ text (ipv6 octets)

end Address

end Esni
