/-! # Digests by blocks

The digests that take a padded message block by block, and what they share. -/

/-! ## Words of a message

What the three digests share: bytes out of range read as zero, 32-bit words in either byte order,
rotations, and the padding that ends a message of 64-byte blocks with its bit length. -/

namespace GameInstaller.Digest

/-- The byte at `i`, zero past the end. -/
@[inline] def byteAt (data : ByteArray) (i : Nat) : UInt8 :=
  if h : i < data.size then data[i] else 0

/-- The word whose first byte is the lowest. -/
def wordLE (data : ByteArray) (i : Nat) : UInt32 :=
  (byteAt data i).toUInt32 ||| ((byteAt data (i + 1)).toUInt32 <<< 8)
    ||| ((byteAt data (i + 2)).toUInt32 <<< 16) ||| ((byteAt data (i + 3)).toUInt32 <<< 24)

/-- The word whose first byte is the highest. -/
def wordBE (data : ByteArray) (i : Nat) : UInt32 :=
  ((byteAt data i).toUInt32 <<< 24) ||| ((byteAt data (i + 1)).toUInt32 <<< 16)
    ||| ((byteAt data (i + 2)).toUInt32 <<< 8) ||| (byteAt data (i + 3)).toUInt32

/-- The bytes of a word, lowest first. -/
def bytesLE (w : UInt32) : List UInt8 :=
  [w.toUInt8, (w >>> 8).toUInt8, (w >>> 16).toUInt8, (w >>> 24).toUInt8]

/-- The bytes of a word, highest first. -/
def bytesBE (w : UInt32) : List UInt8 :=
  [(w >>> 24).toUInt8, (w >>> 16).toUInt8, (w >>> 8).toUInt8, w.toUInt8]

/-- Rotate to the right. -/
@[inline] def rotr (x n : UInt32) : UInt32 := (x >>> n) ||| (x <<< (32 - n))

/-- Rotate to the left. -/
@[inline] def rotl (x n : UInt32) : UInt32 := (x <<< n) ||| (x >>> (32 - n))

/-- The word at `i`, zero past the end. -/
@[inline] def wordAt (words : Array UInt32) (i : Nat) : UInt32 :=
  words.getD i 0

/-- The eight bytes of `n` modulo 2⁶⁴, lowest first. -/
def lengthLE (n : Nat) : List UInt8 :=
  (List.range 8).map fun k => UInt8.ofNat (n / Nat.pow 256 k)

/-- A message followed by the bit 1, zeros, and its length in bits; a multiple of 64 bytes. -/
def padded (lengthBytes : Nat → List UInt8) (data : ByteArray) : ByteArray :=
  let zeros := (119 - data.size % 64) % 64
  data ++ ⟨((0x80 :: List.replicate zeros 0) ++ lengthBytes (8 * data.size)).toArray⟩

end GameInstaller.Digest

/-! ## SHA-256

The digest of FIPS 180-4 with 32 bytes: blocks of 64 bytes, 64 rounds each over eight working
words. -/

namespace GameInstaller.Digest.Sha256

/-- First 32 bits of the fractional parts of the cube roots of the first 64 primes. -/
def roundWords : Array UInt32 := #[
  0x428a2f98, 0x71374491, 0xb5c0fbcf, 0xe9b5dba5, 0x3956c25b, 0x59f111f1, 0x923f82a4, 0xab1c5ed5,
  0xd807aa98, 0x12835b01, 0x243185be, 0x550c7dc3, 0x72be5d74, 0x80deb1fe, 0x9bdc06a7, 0xc19bf174,
  0xe49b69c1, 0xefbe4786, 0x0fc19dc6, 0x240ca1cc, 0x2de92c6f, 0x4a7484aa, 0x5cb0a9dc, 0x76f988da,
  0x983e5152, 0xa831c66d, 0xb00327c8, 0xbf597fc7, 0xc6e00bf3, 0xd5a79147, 0x06ca6351, 0x14292967,
  0x27b70a85, 0x2e1b2138, 0x4d2c6dfc, 0x53380d13, 0x650a7354, 0x766a0abb, 0x81c2c92e, 0x92722c85,
  0xa2bfe8a1, 0xa81a664b, 0xc24b8b70, 0xc76c51a3, 0xd192e819, 0xd6990624, 0xf40e3585, 0x106aa070,
  0x19a4c116, 0x1e376c08, 0x2748774c, 0x34b0bcb5, 0x391c0cb3, 0x4ed8aa4a, 0x5b9cca4f, 0x682e6ff3,
  0x748f82ee, 0x78a5636f, 0x84c87814, 0x8cc70208, 0x90befffa, 0xa4506ceb, 0xbef9a3f7, 0xc67178f2]

/-- The eight working words. -/
structure State where
  a : UInt32
  b : UInt32
  c : UInt32
  d : UInt32
  e : UInt32
  f : UInt32
  g : UInt32
  h : UInt32

/-- First 32 bits of the fractional parts of the square roots of the first eight primes. -/
def initial : State :=
  ⟨0x6a09e667, 0xbb67ae85, 0x3c6ef372, 0xa54ff53a, 0x510e527f, 0x9b05688c, 0x1f83d9ab, 0x5be0cd19⟩

/-- The first sixteen words of the schedule are the block's. -/
def blockWords (data : ByteArray) (offset : Nat) : Array UInt32 :=
  (Array.range 16).map fun k => wordBE data (offset + 4 * k)

/-- The word of the schedule that follows the `t` words before it. -/
def nextWord (w : Array UInt32) (t : Nat) : UInt32 :=
  let x := wordAt w (t - 15)
  let y := wordAt w (t - 2)
  let s0 := rotr x 7 ^^^ rotr x 18 ^^^ (x >>> 3)
  let s1 := rotr y 17 ^^^ rotr y 19 ^^^ (y >>> 10)
  wordAt w (t - 16) + s0 + wordAt w (t - 7) + s1

/-- The schedule of 64 words. -/
def schedule (data : ByteArray) (offset : Nat) : Array UInt32 :=
  (List.range 48).foldl (fun w k => w.push (nextWord w (k + 16))) (blockWords data offset)

/-- One round, with the schedule word plus round word `kw`. -/
def round (s : State) (kw : UInt32) : State :=
  let s1 := rotr s.e 6 ^^^ rotr s.e 11 ^^^ rotr s.e 25
  let ch := (s.e &&& s.f) ^^^ (~~~s.e &&& s.g)
  let t1 := s.h + s1 + ch + kw
  let s0 := rotr s.a 2 ^^^ rotr s.a 13 ^^^ rotr s.a 22
  let maj := (s.a &&& s.b) ^^^ (s.a &&& s.c) ^^^ (s.b &&& s.c)
  ⟨t1 + s0 + maj, s.a, s.b, s.c, s.d + t1, s.e, s.f, s.g⟩

/-- Word by word sum. -/
def State.add (s t : State) : State :=
  ⟨s.a + t.a, s.b + t.b, s.c + t.c, s.d + t.d, s.e + t.e, s.f + t.f, s.g + t.g, s.h + t.h⟩

/-- The state after the block at `offset`. -/
def compress (data : ByteArray) (s : State) (offset : Nat) : State :=
  let w := schedule data offset
  s.add ((List.range 64).foldl (fun s t => round s (wordAt w t + wordAt roundWords t)) s)

/-- The words of a state in order. -/
def State.words (s : State) : List UInt32 := [s.a, s.b, s.c, s.d, s.e, s.f, s.g, s.h]

/-- The length of a message as eight bytes, highest first. -/
def lengthBE (n : Nat) : List UInt8 := (lengthLE n).reverse

/-- The 32 bytes of the digest. -/
def digest (data : ByteArray) : List UInt8 :=
  let message := padded lengthBE data
  let final := (List.range (message.size / 64)).foldl (fun s k => compress message s (64 * k)) initial
  final.words.flatMap bytesBE

end GameInstaller.Digest.Sha256

/-! ## MD5

The digest of RFC 1321 with 16 bytes, accepted for recipes whose publishers only give MD5 sums. -/

namespace GameInstaller.Digest.Md5

/-- Integer parts of 2³² times the absolute sine of 1, 2, … 64. -/
def sineWords : Array UInt32 := #[
  0xd76aa478, 0xe8c7b756, 0x242070db, 0xc1bdceee, 0xf57c0faf, 0x4787c62a, 0xa8304613, 0xfd469501,
  0x698098d8, 0x8b44f7af, 0xffff5bb1, 0x895cd7be, 0x6b901122, 0xfd987193, 0xa679438e, 0x49b40821,
  0xf61e2562, 0xc040b340, 0x265e5a51, 0xe9b6c7aa, 0xd62f105d, 0x02441453, 0xd8a1e681, 0xe7d3fbc8,
  0x21e1cde6, 0xc33707d6, 0xf4d50d87, 0x455a14ed, 0xa9e3e905, 0xfcefa3f8, 0x676f02d9, 0x8d2a4c8a,
  0xfffa3942, 0x8771f681, 0x6d9d6122, 0xfde5380c, 0xa4beea44, 0x4bdecfa9, 0xf6bb4b60, 0xbebfbc70,
  0x289b7ec6, 0xeaa127fa, 0xd4ef3085, 0x04881d05, 0xd9d4d039, 0xe6db99e5, 0x1fa27cf8, 0xc4ac5665,
  0xf4292244, 0x432aff97, 0xab9423a7, 0xfc93a039, 0x655b59c3, 0x8f0ccc92, 0xffeff47d, 0x85845dd1,
  0x6fa87e4f, 0xfe2ce6e0, 0xa3014314, 0x4e0811a1, 0xf7537e82, 0xbd3af235, 0x2ad7d2bb, 0xeb86d391]

/-- The amounts of rotation, four for each group of sixteen rounds. -/
def shifts : Array UInt32 := #[7, 12, 17, 22, 5, 9, 14, 20, 4, 11, 16, 23, 6, 10, 15, 21]

/-- The four working words. -/
structure State where
  a : UInt32
  b : UInt32
  c : UInt32
  d : UInt32

/-- The state before the first block. -/
def initial : State := ⟨0x67452301, 0xefcdab89, 0x98badcfe, 0x10325476⟩

/-- The mixing function of round `i`, and the index of the block word that the round takes. -/
def mix (s : State) (i : Nat) : UInt32 × Nat :=
  if i < 16 then ((s.b &&& s.c) ||| (~~~s.b &&& s.d), i)
  else if i < 32 then ((s.d &&& s.b) ||| (~~~s.d &&& s.c), (5 * i + 1) % 16)
  else if i < 48 then (s.b ^^^ s.c ^^^ s.d, (3 * i + 5) % 16)
  else (s.c ^^^ (s.b ||| ~~~s.d), (7 * i) % 16)

/-- Round `i` over the block at `offset`. -/
def round (data : ByteArray) (offset : Nat) (s : State) (i : Nat) : State :=
  let (f, g) := mix s i
  let sum := f + s.a + wordAt sineWords i + wordLE data (offset + 4 * g)
  ⟨s.d, s.b + rotl sum (wordAt shifts (4 * (i / 16) + i % 4)), s.b, s.c⟩

/-- The state after the block at `offset`. -/
def compress (data : ByteArray) (s : State) (offset : Nat) : State :=
  let t := (List.range 64).foldl (round data offset) s
  ⟨s.a + t.a, s.b + t.b, s.c + t.c, s.d + t.d⟩

/-- The 16 bytes of the digest. -/
def digest (data : ByteArray) : List UInt8 :=
  let message := padded lengthLE data
  let s := (List.range (message.size / 64)).foldl (fun s k => compress message s (64 * k)) initial
  [s.a, s.b, s.c, s.d].flatMap bytesLE

end GameInstaller.Digest.Md5
