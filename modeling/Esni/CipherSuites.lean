import Esni.Identifier
import Esni.Items
import Esni.Listing

/-!
# Cipher suite lists

On the wire a list of cipher suites is the length of the suites in bytes, in two bytes, and the
two-byte codes. A list is written whole or not at all.

## Main definitions

- `CipherSuites.encode` and `CipherSuites.decode` — the wire form
- `CipherSuites.text` — the list as shown to a reader
-/

namespace Esni

inductive CipherSuitesError where
  /-- The announced length is odd, while every suite takes two bytes. -/
  | invalidListLength (length : Nat)
  | truncatedData
  | tooManySuites (count : Nat)
  deriving DecidableEq

def CipherSuitesError.message : CipherSuitesError → String
  | invalidListLength length => s!"invalid cipher suite list length {length}"
  | truncatedData => "truncated cipher suite list"
  | tooManySuites count => s!"too many cipher suites: {count}"

namespace CipherSuites

/-- The largest number of suites whose length in bytes fits its field. -/
def maxCount : Nat := 32767

def reader : ItemReader CipherSuitesError CipherSuite where
  read data := orFault .truncatedData <|
    (Bytes.cutUInt16? data).map fun (code, rest) => (⟨code⟩, rest)
  shrinks h := by
    obtain ⟨⟨code, _⟩, hcut, h⟩ := Option.map_eq_some_iff.1 (orFault_eq_ok_iff.1 h)
    cases h
    have := Bytes.length_of_cutUInt16? hcut
    omega

/-- The list on the wire, with its length in front. -/
def encode (suites : List CipherSuite) : Except CipherSuitesError Bytes :=
  if suites.length ≤ maxCount then
    .ok (Bytes.ofNat 2 (2 * suites.length) ++ suites.flatMap fun suite => Bytes.ofUInt16 suite.code)
  else .error (.tooManySuites suites.length)

/-- Appends the list to `buffer`, which stays as it is if the list cannot be written. -/
def encodeTo (suites : List CipherSuite) (buffer : Bytes) : Bytes × Option CipherSuitesError :=
  match encode suites with
  | .ok bytes => (buffer ++ bytes, none)
  | .error fault => (buffer, some fault)

/-- The list at the front of the data and what follows it. An odd length is reported even if the
data is too short as well. -/
def decode (data : Bytes) : Except CipherSuitesError (List CipherSuite × Bytes) := do
  let (length, data) ← orFault .truncatedData (Bytes.cutNat? 2 data)
  if length % 2 = 1 then .error (.invalidListLength length) else
    let (body, data) ← orFault .truncatedData (Bytes.cut? length data)
    let suites ← (reader.readAll body.val).toExcept
    return (suites, data)

def text (suites : List CipherSuite) : String :=
  listing (suites.map CipherSuite.text)

end CipherSuites

end Esni
