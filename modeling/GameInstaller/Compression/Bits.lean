import GameInstaller.Disk.IoError

/-! # Bits of a byte string

Compressed data is a sequence of bits over bytes, the first bit of a byte being either its lowest
or its highest one.  A position counts bits from the start of the bytes.

* `lowFirst`, `highFirst`   a number of bits from a position on, in either order
* `Defect`                  what is wrong with compressed data
* `Expanded`                what was decompressed before the end or the defect -/

namespace GameInstaller.Compression

/-- A byte of a byte string; zero beyond its end. -/
def byteAt (data : ByteArray) (i : Nat) : Nat :=
  if h : i < data.size then data[i].toNat else 0

/-- `n` bytes as a number, the first the lowest. -/
def littleEndian (data : ByteArray) (i : Nat) : Nat → Nat
  | 0 => 0
  | n + 1 => byteAt data i + 256 * littleEndian data (i + 1) n

/-- `n` bytes as a number, the first the highest. -/
def bigEndian (data : ByteArray) (i n : Nat) : Nat :=
  (List.range n).foldl (fun acc k => acc * 256 + byteAt data (i + k)) 0

/-- The `n` bits from `pos` on as a number, the first bit the lowest. -/
def lowFirst (data : ByteArray) (pos n : Nat) : Nat :=
  (littleEndian data (pos / 8) ((pos % 8 + n + 7) / 8) >>> (pos % 8)) % Nat.pow 2 n

/-- The `n` bits from `pos` on as a number, the first bit the highest. -/
def highFirst (data : ByteArray) (pos n : Nat) : Nat :=
  let bytes := (pos % 8 + n + 7) / 8
  (bigEndian data (pos / 8) bytes >>> (bytes * 8 - pos % 8 - n)) % Nat.pow 2 n

/-- What is wrong with compressed data. -/
inductive Defect where
  /-- It ends early. -/
  | cutShort
  /-- It cannot have been made by compressing anything. -/
  | corrupt
  deriving DecidableEq, Repr

/-- The failure that a reader of the decompressed data meets. -/
def Defect.failure : Defect → Disk.IoError
  | cutShort => .ofKind .unexpectedEof
  | corrupt => .ofKind .invalidInput

/-- What a part of compressed data expands to, and where the next part starts. -/
structure Expanded where
  out : ByteArray
  next : Except Defect Nat

/-- `n` bits at `pos`, unless the data ends before. -/
def takeLow (data : ByteArray) (pos n : Nat) : Except Defect Nat :=
  if pos + n ≤ data.size * 8 then .ok (lowFirst data pos n) else .error .cutShort

/-- `n` bits at `pos` in the other order, unless the data ends before. -/
def takeHigh (data : ByteArray) (pos n : Nat) : Except Defect Nat :=
  if pos + n ≤ data.size * 8 then .ok (highFirst data pos n) else .error .cutShort

/-- Copy `n` bytes from `distance` back to the end of `out`, one after the other, so that bytes
    just copied may be copied again. -/
def copyBack (distance : Nat) : Nat → ByteArray → ByteArray
  | 0, out => out
  | n + 1, out => copyBack distance n (out.push (byteAt out (out.size - distance)).toUInt8)

/-! ## Canonical prefix codes

A code is given by the lengths of its words alone: words of one length are consecutive numbers in
the order of their symbols, and shorter words come first. -/

/-- A canonical prefix code. -/
structure PrefixCode where
  /-- How many words there are of each length, from zero up. -/
  counts : Array Nat
  /-- The symbols in the order of their words. -/
  symbols : Array Nat

namespace PrefixCode

/-- The code with words of these lengths, one per symbol; a length of zero is no word. -/
def ofLengths (longest : Nat) (lengths : List Nat) : PrefixCode :=
  let indexed := lengths.zipIdx
  let ofLength (n : Nat) : List Nat := (indexed.filter fun (l, _) => l = n).map (·.2)
  let byLength := (List.range longest).map fun n => ofLength (n + 1)
  { counts := ((0 :: byLength.map List.length)).toArray
    symbols := byLength.flatten.toArray }

/-- The share of all bit sequences of the length `longest` that start with a word, as a count. -/
def weight (c : PrefixCode) : Nat :=
  let longest := c.counts.size - 1
  (c.counts.toList.zipIdx.map fun (n, l) => n * Nat.pow 2 (longest - l)).foldl (· + ·) 0

/-- Whether every bit sequence starts with exactly one word. -/
def isComplete (c : PrefixCode) : Bool := c.weight = Nat.pow 2 (c.counts.size - 1)

/-- Whether no bit sequence starts with two words. -/
def isPrefixFree (c : PrefixCode) : Bool := c.weight ≤ Nat.pow 2 (c.counts.size - 1)

/-- The symbol whose word starts at a position, and the position after it.  `word` are the bits so
    far, `first` is the first word of this length and `index` its place among all words. -/
def readFrom (c : PrefixCode) (bit : Nat → Except Defect Nat) :
    Nat → Nat → Nat → Nat → Nat → Nat → Except Defect (Nat × Nat)
  | 0, _, _, _, _, _ => .error .corrupt
  | fuel + 1, length, word, first, index, pos =>
    match bit pos with
    | .error d => .error d
    | .ok b =>
      let word := word * 2 + b
      let count := c.counts.getD length 0
      if word < first + count then .ok (c.symbols.getD (index + (word - first)) 0, pos + 1)
      else readFrom c bit fuel (length + 1) word ((first + count) * 2) (index + count) (pos + 1)

/-- The symbol whose word starts at a position, and the position after it. -/
def read (c : PrefixCode) (bit : Nat → Except Defect Nat) (pos : Nat) : Except Defect (Nat × Nat) :=
  readFrom c bit (c.counts.size - 1) 1 0 0 0 pos

end PrefixCode

end GameInstaller.Compression
