/-!
# Digests of texts

The SHA-256 digest of a byte sequence: the bytes are padded to whole blocks of 64, and each block
stirs a state of eight words.

Main definitions: `compress` takes one block, and `sha256` is the digest in hexadecimal digits.
-/

namespace CloudTemplate
namespace Text
namespace Digest

/-- The fractional parts of the cube roots of the first 64 primes, 32 bits of each. -/
def roundConstants : List UInt32 :=
  [0x428a2f98, 0x71374491, 0xb5c0fbcf, 0xe9b5dba5, 0x3956c25b, 0x59f111f1, 0x923f82a4, 0xab1c5ed5,
    0xd807aa98, 0x12835b01, 0x243185be, 0x550c7dc3, 0x72be5d74, 0x80deb1fe, 0x9bdc06a7, 0xc19bf174,
    0xe49b69c1, 0xefbe4786, 0x0fc19dc6, 0x240ca1cc, 0x2de92c6f, 0x4a7484aa, 0x5cb0a9dc, 0x76f988da,
    0x983e5152, 0xa831c66d, 0xb00327c8, 0xbf597fc7, 0xc6e00bf3, 0xd5a79147, 0x06ca6351, 0x14292967,
    0x27b70a85, 0x2e1b2138, 0x4d2c6dfc, 0x53380d13, 0x650a7354, 0x766a0abb, 0x81c2c92e, 0x92722c85,
    0xa2bfe8a1, 0xa81a664b, 0xc24b8b70, 0xc76c51a3, 0xd192e819, 0xd6990624, 0xf40e3585, 0x106aa070,
    0x19a4c116, 0x1e376c08, 0x2748774c, 0x34b0bcb5, 0x391c0cb3, 0x4ed8aa4a, 0x5b9cca4f, 0x682e6ff3,
    0x748f82ee, 0x78a5636f, 0x84c87814, 0x8cc70208, 0x90befffa, 0xa4506ceb, 0xbef9a3f7, 0xc67178f2]

/-- The eight words that the blocks stir. -/
structure State where
  a : UInt32
  b : UInt32
  c : UInt32
  d : UInt32
  e : UInt32
  f : UInt32
  g : UInt32
  h : UInt32
deriving DecidableEq

/-- The fractional parts of the square roots of the first eight primes, 32 bits of each. -/
def State.initial : State :=
  ⟨0x6a09e667, 0xbb67ae85, 0x3c6ef372, 0xa54ff53a, 0x510e527f, 0x9b05688c, 0x1f83d9ab, 0x5be0cd19⟩

/-- Add two states word by word. -/
def State.add (s t : State) : State :=
  ⟨s.a + t.a, s.b + t.b, s.c + t.c, s.d + t.d, s.e + t.e, s.f + t.f, s.g + t.g, s.h + t.h⟩

/-- The words of a state. -/
def State.words (s : State) : List UInt32 :=
  [s.a, s.b, s.c, s.d, s.e, s.f, s.g, s.h]

/-- Rotate a word to the right. -/
def rotate (word count : UInt32) : UInt32 :=
  (word >>> count) ||| (word <<< (32 - count))

/-- Four bytes as a word, the first byte in the highest place. -/
def wordOf (bytes : List UInt8) : UInt32 :=
  bytes.foldl (fun word byte => (word <<< 8) ||| byte.toUInt32) 0

/-- The words of a block, the last word first. -/
def blockWords (block : List UInt8) : Nat → List UInt32 → List UInt32
  | 0, words => words
  | count + 1, words => blockWords (block.drop 4) count (wordOf (block.take 4) :: words)

/-- The next word of a schedule, from the words before it, the latest first. -/
def nextWord (words : List UInt32) : UInt32 :=
  let at_ (i : Nat) : UInt32 := words.getD i 0
  let low := rotate (at_ 14) 7 ^^^ rotate (at_ 14) 18 ^^^ (at_ 14 >>> 3)
  let high := rotate (at_ 1) 17 ^^^ rotate (at_ 1) 19 ^^^ (at_ 1 >>> 10)
  at_ 15 + low + at_ 6 + high

/-- Extend a schedule by a number of words. -/
def extend : Nat → List UInt32 → List UInt32
  | 0, words => words
  | count + 1, words => extend count (nextWord words :: words)

/-- Stir one word into a state. -/
def stir (s : State) (constant word : UInt32) : State :=
  let high := rotate s.e 6 ^^^ rotate s.e 11 ^^^ rotate s.e 25
  let choice := (s.e &&& s.f) ^^^ (~~~s.e &&& s.g)
  let first := s.h + high + choice + constant + word
  let low := rotate s.a 2 ^^^ rotate s.a 13 ^^^ rotate s.a 22
  let majority := (s.a &&& s.b) ^^^ (s.a &&& s.c) ^^^ (s.b &&& s.c)
  ⟨first + (low + majority), s.a, s.b, s.c, s.d + first, s.e, s.f, s.g⟩

/-- Stir a block into a state. -/
def compress (s : State) (block : List UInt8) : State :=
  let words := (extend 48 (blockWords block 16 [])).reverse
  s.add ((roundConstants.zip words).foldl (fun s entry => stir s entry.1 entry.2) s)

/-- Stir a number of blocks into a state. -/
def compressAll (s : State) (bytes : List UInt8) : Nat → State
  | 0 => s
  | count + 1 => compressAll (compress s (bytes.take 64)) (bytes.drop 64) count

/-- The lowest eight bytes of a number, the highest byte first. -/
def eightBytes (n : Nat) : List UInt8 :=
  (List.range 8).map fun i => (n >>> (8 * (7 - i))).toUInt8

/-- Fill up the last block: a set bit, zeros, and the number of bits of the message. -/
def pad (bytes : List UInt8) : List UInt8 :=
  let zeros := (119 - bytes.length % 64) % 64
  bytes ++ 0x80 :: (List.replicate zeros 0 ++ eightBytes (8 * bytes.length))

/-- The lower-case hexadecimal digits of a word. -/
def hexDigits (word : UInt32) : List Char :=
  (List.range 8).map fun i => ((word.toNat >>> (4 * (7 - i))) % 16).digitChar

/-- The SHA-256 digest of some bytes in hexadecimal digits. -/
def sha256 (bytes : List UInt8) : String :=
  let padded := pad bytes
  String.ofList
    ((compressAll .initial padded (padded.length / 64)).words.flatMap hexDigits)

end Digest
end Text
end CloudTemplate
