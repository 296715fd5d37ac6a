import GameInstaller.Compression.Bits

/-! # Checks of data

The numbers by which the formats tell whether what was decompressed is what was compressed. -/

/-! ## Cyclic redundancy checks

The 32-bit check of gzip and zip, which takes the bits of a byte from the lowest up, and the one of
bzip2, which takes them from the highest down. -/

namespace GameInstaller.Compression.Crc32

/-- One bit of the check that takes low bits first. -/
def stepLow (c : UInt32) : UInt32 :=
  if c % 2 = 1 then (c >>> 1) ^^^ (0xEDB88320 : UInt32) else c >>> 1

/-- One bit of the check that takes high bits first. -/
def stepHigh (c : UInt32) : UInt32 :=
  if c >>> 31 = 1 then (c <<< 1) ^^^ (0x04C11DB7 : UInt32) else c <<< 1

/-- A step eight times. -/
def eight (step : UInt32 → UInt32) (c : UInt32) : UInt32 :=
  step (step (step (step (step (step (step (step c)))))))

/-- What each byte does to the check that takes low bits first. -/
def tableLow : Array UInt32 := (Array.range 256).map fun n => eight stepLow n.toUInt32

/-- What each byte does to the check that takes high bits first. -/
def tableHigh : Array UInt32 := (Array.range 256).map fun n => eight stepHigh (n.toUInt32 * 0x1000000)

/-- The check of gzip and zip. -/
def low (data : ByteArray) : UInt32 :=
  ~~~ data.foldl (fun c b =>
    tableLow.getD ((c ^^^ b.toUInt32) &&& 0xFF).toNat 0 ^^^ (c >>> 8)) 0xFFFFFFFF

/-- The check of bzip2. -/
def high (data : ByteArray) : UInt32 :=
  ~~~ data.foldl (fun c b =>
    tableHigh.getD ((c >>> 24) ^^^ b.toUInt32).toNat 0 ^^^ (c <<< 8)) 0xFFFFFFFF

end GameInstaller.Compression.Crc32

/-! ## The 64-bit check of frames

A fast hash of a byte string with seed zero: four lanes take eight bytes each in turn, and what is
left over is mixed in at the end. -/

namespace GameInstaller.Compression.Xxh64

def prime1 : UInt64 := 0x9E3779B185EBCA87
def prime2 : UInt64 := 0xC2B2AE3D27D4EB4F
def prime3 : UInt64 := 0x165667B19E3779F9
def prime4 : UInt64 := 0x85EBCA77C2B2AE63
def prime5 : UInt64 := 0x27D4EB2F165667C5

/-- Rotate to the left. -/
def rotate (x : UInt64) (n : UInt64) : UInt64 := (x <<< n) ||| (x >>> (64 - n))

/-- One lane takes eight bytes. -/
def round (lane input : UInt64) : UInt64 := rotate (lane + input * prime2) 31 * prime1

/-- Mix a lane into the result. -/
def merge (h lane : UInt64) : UInt64 := (h ^^^ round 0 lane) * prime1 + prime4

/-- Eight bytes. -/
def word (data : ByteArray) (i : Nat) : UInt64 := (littleEndian data i 8).toUInt64

/-- The lanes after `n` stripes of 32 bytes from `i` on. -/
def stripes (data : ByteArray) : Nat → Nat → UInt64 × UInt64 × UInt64 × UInt64 →
    UInt64 × UInt64 × UInt64 × UInt64
  | 0, _, lanes => lanes
  | n + 1, i, (a, b, c, d) =>
    stripes data n (i + 32) (round a (word data i), round b (word data (i + 8)),
      round c (word data (i + 16)), round d (word data (i + 24)))

/-- Mix in words of eight bytes. -/
def words (data : ByteArray) : Nat → Nat → UInt64 → UInt64
  | 0, _, h => h
  | n + 1, i, h =>
    words data n (i + 8) (rotate (h ^^^ round 0 (word data i)) 27 * prime1 + prime4)

/-- Mix in single bytes. -/
def bytes (data : ByteArray) : Nat → Nat → UInt64 → UInt64
  | 0, _, h => h
  | n + 1, i, h =>
    bytes data n (i + 1) (rotate (h ^^^ ((byteAt data i).toUInt64 * prime5)) 11 * prime1)

/-- The check of a byte string. -/
def check (data : ByteArray) : UInt64 :=
  let size := data.size
  let n := size / 32
  let start : UInt64 :=
    if size < 32 then prime5
    else
      let (a, b, c, d) := stripes data n 0 (prime1 + prime2, prime2, 0, 0 - prime1)
      let h := rotate a 1 + rotate b 7 + rotate c 12 + rotate d 18
      merge (merge (merge (merge h a) b) c) d
  let h := start + size.toUInt64
  let i := n * 32
  let h := words data ((size - i) / 8) i h
  let i := i + (size - i) / 8 * 8
  let (h, i) :=
    if i + 4 ≤ size then
      (rotate (h ^^^ ((littleEndian data i 4).toUInt64 * prime1)) 23 * prime2 + prime3, i + 4)
    else (h, i)
  let h := bytes data (size - i) i h
  let h := (h ^^^ (h >>> 33)) * prime2
  let h := (h ^^^ (h >>> 29)) * prime3
  h ^^^ (h >>> 32)

end GameInstaller.Compression.Xxh64
