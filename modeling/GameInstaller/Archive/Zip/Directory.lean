import GameInstaller.Compression.Bits
import GameInstaller.Compression.Checks
import GameInstaller.Disk.IoError
import GameInstaller.Text.Utf8

/-! # The directory of a zip archive

A zip archive ends in a directory of its entries.  The end record is looked for from the end of the
file, and says where the directory is; bytes in front of the archive move everything by their
number. -/

namespace GameInstaller.Archive.Zip

open Compression (byteAt littleEndian)
open Disk (IoError)

/-- An entry. -/
structure Entry where
  name : String
  /-- The system that the attributes are of. -/
  system : Nat
  attributes : Nat
  encrypted : Bool
  method : Nat
  crc : Nat
  packedSize : Nat
  /-- Where the data of the entry starts. -/
  start : Nat

/-- The failure for an archive that is no zip archive, or one that cannot be read. -/
def invalid (text : String) : IoError := .custom .invalidData text

/-! ## The end record -/

/-- The end record: where it is, how many entries there are and where the directory should be. -/
structure End where
  offset : Nat
  count : Nat
  directory : Nat

/-- The end record at a position, if there is one that fits into the file. -/
def endAt? (data : ByteArray) (i : Nat) : Option End :=
  if littleEndian data i 4 ≠ 0x06054B50 || data.size < i + 22 + littleEndian data (i + 20) 2 then none
  else some ⟨i, littleEndian data (i + 10) 2, littleEndian data (i + 16) 4⟩

/-- The first place from a position on, before another, where a mark stands. -/
def findMark (data : ByteArray) (mark : Nat) : Nat → Nat → Nat → Option Nat
  | 0, _, _ => none
  | fuel + 1, i, stop =>
    if stop < i + 4 then none
    else if littleEndian data i 4 = mark then some i
    else findMark data mark fuel (i + 1) stop

/-- Where the directory is, for an end record that fits. -/
def directoryOf? (data : ByteArray) (e : End) : Option Nat :=
  if e.count = 0 then some e.offset
  else if e.offset ≤ e.directory then none
  else findMark data 0x02014B50 data.size e.directory e.offset

/-- The last end record that fits, with the place of its directory. -/
def findEnd (data : ByteArray) : Nat → Option (End × Nat)
  | 0 => none
  | i + 1 =>
    match (endAt? data i).bind fun e => (directoryOf? data e).map fun d => (e, d) with
    | some found => some found
    | none => findEnd data i

/-! ## Entries -/

/-- What the extra fields of an entry tell. -/
structure Extra where
  /-- The name in another spelling. -/
  name : Option (List UInt8)
  packedSize : Nat
  header : Nat

/-- Sizes and places that do not fit into their own fields, in their order. -/
def wide (data : ByteArray) (start full : Nat) (e : Extra) : Extra :=
  let limit := 0xFFFFFFFF
  let i := if full = limit then start + 8 else start
  let (packedSize, i) :=
    if e.packedSize = limit then (littleEndian data i 8, i + 8) else (e.packedSize, i)
  { e with packedSize, header := if e.header = limit then littleEndian data i 8 else e.header }

/-- Take one extra field into account. -/
def readExtra (data : ByteArray) (plain : List UInt8) (full kind start size : Nat) (e : Extra) :
    Except IoError Extra :=
  if kind = 0x0001 then .ok (wide data start full e)
  else if kind = 0x5455 then
    let flags := byteAt data start
    let count := ((List.range 8).map fun k => flags / Nat.pow 2 k % 2).foldl (· + ·) 0
    if size ≠ 5 && size ≠ 1 + 4 * count || 8 ≤ flags then .error (invalid "extended timestamp")
    else .ok e
  else if kind = 0x7075 then
    let name := (data.extract (start + 5) (start + size)).toList
    if littleEndian data (start + 1) 4 ≠ (Compression.Crc32.low ⟨plain.toArray⟩).toNat then
      .error (invalid "CRC32 checksum failed on Unicode extra field")
    else if (Text.strict? ⟨name.toArray⟩).isNone then .error (invalid "Invalid UTF-8")
    else .ok { e with name := some name }
  else .ok e

/-- Take all extra fields between two positions into account. -/
def readExtras (data : ByteArray) (plain : List UInt8) (full stop : Nat) :
    Nat → Nat → Extra → Except IoError Extra
  | 0, _, e => .ok e
  | fuel + 1, i, e =>
    if stop < i + 4 then .ok e
    else
      let size := littleEndian data (i + 2) 2
      if stop < i + 4 + size then .ok e
      else
        match readExtra data plain full (littleEndian data i 2) (i + 4) size e with
        | .error e => .error e
        | .ok e => readExtras data plain full stop fuel (i + 4 + size) e

/-- The entry that the directory has at a position, and the position of the next one. -/
def readEntry (data : ByteArray) (shift i : Nat) : Except IoError (Entry × Nat) := do
  if data.size < i + 46 then throw (.ofKind .unexpectedEof)
  if littleEndian data i 4 ≠ 0x02014B50 then throw (invalid "Invalid Central Directory header")
  let flags := littleEndian data (i + 8) 2
  let nameEnd := i + 46 + littleEndian data (i + 28) 2
  let extraEnd := nameEnd + littleEndian data (i + 30) 2
  let stop := extraEnd + littleEndian data (i + 32) 2
  if data.size < stop then throw (.ofKind .unexpectedEof)
  let plain := (data.extract (i + 46) nameEnd).toList
  let extra ← readExtras data plain (littleEndian data (i + 24) 4) extraEnd (extraEnd + 1) nameEnd
    ⟨none, littleEndian data (i + 20) 4, littleEndian data (i + 42) 4⟩
  let name := match extra.name with
    | some name => Text.lossy ⟨name.toArray⟩
    | none => if flags / 2048 % 2 = 1 then Text.lossy ⟨plain.toArray⟩ else Text.cp437 plain
  let header := extra.header + shift
  let misplaced := invalid "A local file entry can't start after its central-directory header"
  if i ≤ header then throw misplaced
  if littleEndian data header 4 ≠ 0x04034B50 then throw (invalid "Invalid local file header")
  let start := header + 30 + littleEndian data (header + 26) 2 + littleEndian data (header + 28) 2
  if i < start then throw misplaced
  pure (⟨name, byteAt data (i + 5), littleEndian data (i + 38) 4, flags % 2 = 1,
    littleEndian data (i + 10) 2, littleEndian data (i + 16) 4, extra.packedSize, start⟩, stop)

/-- Entries with one put in the place of the one with the same name, or at the end. -/
def putEntry (e : Entry) : List Entry → List Entry
  | [] => [e]
  | f :: r => if f.name = e.name then e :: r else f :: putEntry e r

/-- `n` entries from a position on. -/
def readEntries (data : ByteArray) (shift : Nat) : Nat → Nat → List Entry → Except IoError (List Entry)
  | 0, _, acc => .ok acc
  | n + 1, i, acc =>
    match readEntry data shift i with
    | .error e => .error e
    | .ok (e, i) => readEntries data shift n i (putEntry e acc)

/-- The entries of an archive, of those with one name the last one. -/
def entries (data : ByteArray) : Except IoError (List Entry) :=
  match findEnd data data.size with
  | none => .error (invalid "Could not find EOCD")
  | some (e, directory) =>
    if littleEndian data (e.offset + 4) 2 ≠ littleEndian data (e.offset + 6) 2 then
      .error (invalid "Support for multi-disk files is not implemented")
    else readEntries data (directory - e.directory) e.count directory []

namespace Entry

/-- The mode that the attributes give. -/
def mode? (e : Entry) : Option Nat :=
  if e.attributes = 0 then none
  else if e.system = 3 then some (e.attributes / 65536)
  else if e.system = 0 then
    let mode := if e.attributes / 16 % 2 = 1 then 0o40775 else 0o100664
    some (if e.attributes % 2 = 1 then mode - 0o220 else mode)
  else none

/-- Whether the entry is a link. -/
def isLink (e : Entry) : Bool := e.mode?.any fun m => m / 4096 % 16 = 0o12

/-- Whether the name is that of a directory. -/
def isDirectory (e : Entry) : Bool :=
  match e.name.toList.getLast? with
  | some c => c = '/' || c = '\\'
  | none => false

end Entry

end GameInstaller.Archive.Zip
