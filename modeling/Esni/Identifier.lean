import Esni.Hex

/-!
# Identifiers

Versions of the record format, groups of key shares and cipher suites are sixteen-bit codes. All
codes are accepted and carried as they are; the few that have a name are shown by it, and the
others by their hexadecimal value.

## Main definitions

- `CodeTable` — the codes with a name, and the text of any code
- `Version`, `NamedGroup`, `CipherSuite` — the three kinds of identifiers
- `Version.hasPublicName` — whether records of a version hold a public name
-/

namespace Esni

/-- Codes with their names. -/
abbrev CodeTable := List (UInt16 × String)

namespace CodeTable

/-- The name of a code, if it has one. -/
def name? (table : CodeTable) (code : UInt16) : Option String :=
  table.lookup code

/-- The text of a code without a name: its value in four hexadecimal digits. -/
def unknownText (code : UInt16) : String :=
  "UNKNOWN(0x" ++ Hex.text (Bytes.ofNat 2 code.toNat) ++ ")"

/-- A code is shown by its name if it has one. -/
def text (table : CodeTable) (code : UInt16) : String :=
  (table.name? code).getD (unknownText code)

end CodeTable

structure Version where
  code : UInt16
  deriving DecidableEq

namespace Version

/-- The first draft that had the record. The next draft kept its code. -/
def draft01 : Version := ⟨0xff01⟩

/-- The draft that added the public name. -/
def draft03 : Version := ⟨0xff02⟩

def names : CodeTable :=
  [(draft01.code, "draft-ietf-tls-esni-01"), (draft03.code, "draft-ietf-tls-esni-03")]

/-- Versions are ordered by their codes. -/
instance : Ord Version where
  compare a b := compare a.code b.code

/-- Whether records of this version hold a public name: all from `draft03` on do. -/
def hasPublicName (version : Version) : Bool :=
  draft03.code ≤ version.code

def name? (version : Version) : Option String := names.name? version.code

def text (version : Version) : String := names.text version.code

end Version

/-- The group in which a key share is a public key. -/
structure NamedGroup where
  code : UInt16
  deriving DecidableEq

namespace NamedGroup

def names : CodeTable :=
  [(0x0017, "secp256r1"), (0x0018, "secp384r1"), (0x0019, "secp521r1"), (0x001d, "x25519"),
    (0x001e, "x448"), (0x0100, "ffdhe2048"), (0x0101, "ffdhe3072"), (0x0102, "ffdhe4096"),
    (0x0103, "ffdhe6144"), (0x0104, "ffdhe8192")]

def name? (group : NamedGroup) : Option String := names.name? group.code

def text (group : NamedGroup) : String := names.text group.code

end NamedGroup

/-- A cipher suite that may encrypt the server name. -/
structure CipherSuite where
  code : UInt16
  deriving DecidableEq

namespace CipherSuite

def names : CodeTable :=
  [(0x1301, "TLS_AES_128_GCM_SHA256"), (0x1302, "TLS_AES_256_GCM_SHA384"),
    (0x1303, "TLS_CHACHA20_POLY1305_SHA256"), (0x1304, "TLS_AES_128_CCM_SHA256"),
    (0x1305, "TLS_AES_128_CCM_8_SHA256")]

def name? (suite : CipherSuite) : Option String := names.name? suite.code

def text (suite : CipherSuite) : String := names.text suite.code

end CipherSuite

end Esni
