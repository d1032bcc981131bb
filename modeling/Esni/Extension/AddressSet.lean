import Esni.Extension.Basic
import Esni.Listing
import Esni.Update

/-!
# Address sets

An address set tells where the servers are that hold the keys of the record. Its payload is tagged
addresses one after the other. It has no length, so an address set takes all the data that is left
in the extension list and can only be the last extension.

## Main definitions

- `AddressSet` — the addresses, with the `ExtensionKind` instance
- `AddressSet.decode` and `AddressSet.replaceBy` — reading a payload
-/

namespace Esni

/-- The addresses of the servers that hold the keys of a record. -/
structure AddressSet where
  addresses : List Address
  deriving DecidableEq

namespace AddressSet

def type : ExtensionType := ⟨0x1001⟩

def name : String := "address_set"

def empty : AddressSet := ⟨[]⟩

def payloadLength (set : AddressSet) : Nat :=
  totalLength Address.encodedLength set.addresses

/-- The tagged addresses one after the other. -/
def payload (set : AddressSet) : Bytes := set.addresses.flatMap Address.wire

/-- The set whose payload the whole data is. -/
def decode (data : Bytes) : Except AddressError AddressSet := do
  let addresses ← (Address.reader.readAll data).toExcept
  return ⟨addresses⟩

/-- Replaces the whole set by the one that `data` holds. A faulty payload leaves the set as it
is. -/
def replaceBy (set : AddressSet) (data : Bytes) : AddressSet × Option AddressError :=
  Update.outcome (Update.replace (decode data)) set

def text (set : AddressSet) : String := listing (set.addresses.map Address.labelled)

instance : ExtensionKind AddressSet where
  kind := name
  fresh := empty
  type _ := type
  -- An address takes more bytes in memory than in a payload, so the sum always fits into a word.
  payloadLength set := UInt64.ofNat set.payloadLength
  payload := payload
  decode data := (decode data).mapError .addresses
  consumesRest _ := true
  text := text

end AddressSet

end Esni
