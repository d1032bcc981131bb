import Esni.Bytes

/-!
# SHA-256

The hash function that the checksum of a record is taken from, as the Secure Hash Standard defines
it: the message is filled up to whole blocks, and each block is worked into a state of eight
words by sixty-four rounds.

## Main definitions

- `Sha256.padded` — the message filled up to whole blocks
- `Sha256.compress` — one block worked into the state
- `sha256` — the hash of a byte string
-/

namespace Esni

namespace Sha256

/-- The eight words that are carried from block to block. -/
structure State where
  a : UInt32
  b : UInt32
  c : UInt32
  d : UInt32
  e : UInt32
  f : UInt32
  g : UInt32
  h : UInt32

/-- The state before the first block: the fractions of the square roots of the first eight
primes. -/
def initial : State :=
  ⟨0x6a09e667, 0xbb67ae85, 0x3c6ef372, 0xa54ff53a,
    0x510e527f, 0x9b05688c, 0x1f83d9ab, 0x5be0cd19⟩

/-- The constants of the rounds: the fractions of the cube roots of the first sixty-four
primes. -/
def roundConstants : List UInt32 :=
  [
    0x428a2f98, 0x71374491, 0xb5c0fbcf, 0xe9b5dba5, 0x3956c25b, 0x59f111f1, 0x923f82a4, 0xab1c5ed5,
    0xd807aa98, 0x12835b01, 0x243185be, 0x550c7dc3, 0x72be5d74, 0x80deb1fe, 0x9bdc06a7, 0xc19bf174,
    0xe49b69c1, 0xefbe4786, 0x0fc19dc6, 0x240ca1cc, 0x2de92c6f, 0x4a7484aa, 0x5cb0a9dc, 0x76f988da,
    0x983e5152, 0xa831c66d, 0xb00327c8, 0xbf597fc7, 0xc6e00bf3, 0xd5a79147, 0x06ca6351, 0x14292967,
    0x27b70a85, 0x2e1b2138, 0x4d2c6dfc, 0x53380d13, 0x650a7354, 0x766a0abb, 0x81c2c92e, 0x92722c85,
    0xa2bfe8a1, 0xa81a664b, 0xc24b8b70, 0xc76c51a3, 0xd192e819, 0xd6990624, 0xf40e3585, 0x106aa070,
    0x19a4c116, 0x1e376c08, 0x2748774c, 0x34b0bcb5, 0x391c0cb3, 0x4ed8aa4a, 0x5b9cca4f, 0x682e6ff3,
    0x748f82ee, 0x78a5636f, 0x84c87814, 0x8cc70208, 0x90befffa, 0xa4506ceb, 0xbef9a3f7, 0xc67178f2]

/-- The word with its bits moved `n` places to the right, in a circle. -/
def rotateRight (word n : UInt32) : UInt32 := word >>> n ||| word <<< (32 - n)

/-- The words that a block holds, four bytes each. -/
def words : Bytes → List UInt32
  | a :: b :: c :: d :: rest =>
    (a.toUInt32 <<< 24 ||| b.toUInt32 <<< 16 ||| c.toUInt32 <<< 8 ||| d.toUInt32) :: words rest
  | _ => []

/-- The word that the message schedule adds behind `schedule`, which has at least sixteen. -/
def nextWord (schedule : Array UInt32) : UInt32 :=
  let back (n : Nat) := schedule.getD (schedule.size - n) 0
  let s0 := rotateRight (back 15) 7 ^^^ rotateRight (back 15) 18 ^^^ back 15 >>> 3
  let s1 := rotateRight (back 2) 17 ^^^ rotateRight (back 2) 19 ^^^ back 2 >>> 10
  back 16 + s0 + back 7 + s1

/-- The words of a block and the forty-eight that follow from them. -/
def schedule (block : Bytes) : Array UInt32 :=
  Nat.repeat (fun schedule => schedule.push (nextWord schedule)) 48 (words block).toArray

/-- One round, with its constant and its word of the schedule. -/
def round (s : State) (constant word : UInt32) : State :=
  let s1 := rotateRight s.e 6 ^^^ rotateRight s.e 11 ^^^ rotateRight s.e 25
  let choice := (s.e &&& s.f) ^^^ (~~~s.e &&& s.g)
  let t1 := s.h + s1 + choice + constant + word
  let s0 := rotateRight s.a 2 ^^^ rotateRight s.a 13 ^^^ rotateRight s.a 22
  let majority := (s.a &&& s.b) ^^^ (s.a &&& s.c) ^^^ (s.b &&& s.c)
  ⟨t1 + s0 + majority, s.a, s.b, s.c, s.d + t1, s.e, s.f, s.g⟩

/-- Works one block into the state. -/
def compress (s : State) (block : Bytes) : State :=
  let t := (roundConstants.zip (schedule block).toList).foldl
    (fun s (constant, word) => round s constant word) s
  ⟨s.a + t.a, s.b + t.b, s.c + t.c, s.d + t.d, s.e + t.e, s.f + t.f, s.g + t.g, s.h + t.h⟩

/-- Works all whole blocks into the state. -/
def compressAll (s : State) (data : Bytes) : State :=
  match h : Bytes.cut? 64 data with
  | none => s
  | some (block, rest) =>
    have := Bytes.length_of_cut? h
    compressAll (compress s block.val) rest
termination_by data.length

/-- The message with a one bit, as many zero bits as fill up the last block, and the number of
message bits in eight bytes. -/
def padded (message : Bytes) : Bytes :=
  let length := message.length
  message ++ 0x80 :: List.replicate ((119 - length % 64) % 64) 0 ++ Bytes.ofNat 8 (8 * length)

def State.toBytes (s : State) : Bytes :=
  [s.a, s.b, s.c, s.d, s.e, s.f, s.g, s.h].flatMap fun word => Bytes.ofNat 4 word.toNat

end Sha256

/-- The hash of a byte string, thirty-two bytes. -/
def sha256 (message : Bytes) : Octets 32 :=
  ⟨(Sha256.compressAll Sha256.initial (Sha256.padded message)).toBytes, by
    simp [Sha256.State.toBytes]⟩

end Esni
