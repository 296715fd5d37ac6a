import GameInstaller.Compression.Bits
import GameInstaller.Text.Blank
import GameInstaller.Text.Utf8

/-! # Blocks of tar archives

How a tar archive is read, and what the blocks in front of its members say. -/

/-! ## Reading from an archive

An archive is read from its start to its end; where it ends early, reading on fails with whatever
cut it short. -/

namespace GameInstaller.Archive

open Disk (ByteStream IoError)
open Compression (byteAt)

/-- The bytes of an archive, and the failure that ends them early. -/
structure Source where
  data : ByteArray
  failure : Option IoError

/-- A failure that is told by its text alone. -/
def complaint (text : String) : IoError := .custom .other text

namespace Source

/-- The source that a stream is. -/
def ofStream (s : ByteStream) : Source := ⟨s.joined, s.failure⟩

/-- What reading past the end gives: the failure, or this one. -/
def beyond (s : Source) (otherwise : String) : IoError := s.failure.getD (complaint otherwise)

/-- A field of bytes up to its first zero byte. -/
def field (data : ByteArray) (start size : Nat) : List UInt8 :=
  ((data.extract start (start + size)).toList).takeWhile (· ≠ 0)

end Source

end GameInstaller.Archive

/-! ## Headers of tar members

A header is a block of 512 bytes with fields at fixed places.  Numbers are octal digits, or bytes
after a set bit.  Newer headers are told by a mark and may split a long name into two fields. -/

namespace GameInstaller.Archive.Tar

open Disk (IoError)
open Compression (byteAt)

/-- The size of a block. -/
def blockSize : Nat := 512

/-- The largest number of bytes that an archive can count. -/
def countLimit : Nat := Nat.pow 2 64

/-- A header, at its place in the archive. -/
structure Header where
  data : ByteArray
  start : Nat

/-- A number in octal digits, with blanks around it. -/
def octal? (bytes : List UInt8) : Option Nat := do
  let text ← Text.strict? ⟨bytes.toArray⟩
  let digits := match Text.trimBoth Text.isBlank text.toList with
    | '+' :: r => r
    | cs => cs
  if digits.isEmpty || !digits.all fun c => '0' ≤ c && c ≤ '7' then none
  else
    let n := digits.foldl (fun n c => n * 8 + (c.toNat - '0'.toNat)) 0
    if countLimit ≤ n then none else some n

namespace Header

/-- The kind of a member: the character that stands for it. -/
def kind (h : Header) : UInt8 := (byteAt h.data (h.start + 156)).toUInt8

/-- A field up to its first zero byte. -/
def text (h : Header) (offset size : Nat) : List UInt8 := Source.field h.data (h.start + offset) size

/-- A number: octal, or in bytes when the first bit of the field is set. -/
def number? (h : Header) (offset size : Nat) : Option Nat :=
  let first := byteAt h.data (h.start + offset)
  if first < 128 then octal? (h.text offset size)
  else if size = 8 then
    some ((first - 128) * Nat.pow 2 56 + Compression.bigEndian h.data (h.start + offset + 1) 7)
  else some (Compression.bigEndian h.data (h.start + offset + (size - 8)) 8)

/-- The size of what follows the header. -/
def size? (h : Header) : Option Nat := h.number? 124 12

/-- The permission bits. -/
def mode? (h : Header) : Option Nat := octal? (h.text 100 8)

/-- Whether the block is all zeros, which ends an archive. -/
def isBlank (h : Header) : Bool := (List.range blockSize).all fun i => byteAt h.data (h.start + i) = 0

/-- The sum of all bytes, those of the field for the sum counted as spaces. -/
def sum (h : Header) : Nat :=
  ((List.range blockSize).map fun i =>
    if 148 ≤ i && i < 156 then 32 else byteAt h.data (h.start + i)).foldl (· + ·) 0

/-- Whether the header says what its sum is. -/
def isWhole (h : Header) : Bool := octal? (h.text 148 8) = some h.sum

/-- The bytes of the mark. -/
def mark (h : Header) : ByteArray := h.data.extract (h.start + 257) (h.start + 265)

/-- Whether this is a header of the standard. -/
def isStandard (h : Header) : Bool := h.mark.toList = "ustar\x0000".toUTF8.toList

/-- Whether this is a header of the older extension. -/
def isExtended (h : Header) : Bool := h.mark.toList = "ustar  \x00".toUTF8.toList

/-- The name of the member. -/
def name (h : Header) : List UInt8 :=
  let base := h.text 0 100
  let front := h.text 345 155
  if h.isStandard && !front.isEmpty then front ++ '/'.toNat.toUInt8 :: base else base

/-- What the member links to. -/
def link? (h : Header) : Option (List UInt8) :=
  let l := h.text 157 100
  if l.isEmpty then none else some l

end Header

end GameInstaller.Archive.Tar

/-! ## Records of extended headers

Lines `<length> <key>=<value>`, whose length counts the whole line. -/

namespace GameInstaller.Archive.Tar

/-- Bytes between separators. -/
def splitBytes (sep : UInt8) : List UInt8 → List (List UInt8)
  | [] => [[]]
  | b :: r =>
    match splitBytes sep r with
    | [] => [[b]]
    | p :: ps => if b = sep then [] :: p :: ps else (b :: p) :: ps

/-- A number in decimal digits. -/
def decimal? (bytes : List UInt8) : Option Nat := do
  let text ← Text.strict? ⟨bytes.toArray⟩
  let digits := match text.toList with
    | '+' :: r => r
    | cs => cs
  if digits.isEmpty || !digits.all Char.isDigit then none
  else
    let n := digits.foldl (fun n c => n * 10 + (c.toNat - '0'.toNat)) 0
    if countLimit ≤ n then none else some n

/-- The key and value of a line; nothing when the line is malformed. -/
def record? (line : List UInt8) : Option (List UInt8 × List UInt8) :=
  match line.span (· ≠ ' '.toNat.toUInt8) with
  | (_, []) => none
  | (length, _ :: rest) =>
    if decimal? length ≠ some (line.length + 1) then none
    else match rest.span (· ≠ '='.toNat.toUInt8) with
      | (_, []) => none
      | (key, _ :: value) => some (key, value)

/-- The lines of records; an empty line ends them. -/
def records (bytes : List UInt8) : List (Option (List UInt8 × List UInt8)) :=
  ((splitBytes 10 bytes).takeWhile fun l => !l.isEmpty).map record?

/-- The first value of a key, malformed lines aside. -/
def value? (bytes : List UInt8) (key : String) : Option (List UInt8) :=
  ((records bytes).filterMap id |>.find? fun (k, _) => k == key.toUTF8.toList).map (·.2)

/-- The first value of a key as a number, unless a malformed line stands before it. -/
def number? (bytes : List UInt8) (key : String) : Option Nat :=
  go (records bytes)
where
  go : List (Option (List UInt8 × List UInt8)) → Option Nat
    | [] => none
    | none :: _ => none
    | some (k, v) :: r => if k == key.toUTF8.toList then decimal? v else go r

end GameInstaller.Archive.Tar
