import GameInstaller.Compression.Checks
import GameInstaller.Compression.Zstd.Block

/-! # Frames

A file is any number of frames one after the other, each a header and blocks; frames that hold no
data are skipped. -/

namespace GameInstaller.Compression.Zstd

open Disk (ByteStream)

/-- The header of a frame. -/
structure Header where
  /-- How far back a block may refer. -/
  window : Nat
  /-- How many bytes the frame holds, if the header tells. -/
  content : Option Nat
  /-- Whether a check stands behind the last block. -/
  check : Bool
  /-- Where the first block starts. -/
  next : Nat

/-- The largest window that is read without special leave. -/
def maxWindow : Nat := Nat.pow 2 27

/-- The header from behind the mark of a frame. -/
def Header.read (data : ByteArray) (start : Nat) : Except Defect Header := do
  if data.size ≤ start then .error .cutShort
  let d := byteAt data start
  let single := d / 32 % 2 = 1
  let dictionaryBytes := [0, 1, 2, 4].getD (d % 4) 0
  let sizeBytes := [if single then 1 else 0, 2, 4, 8].getD (d / 64) 0
  let windowBytes := if single then 0 else 1
  let stop := start + 1 + windowBytes + dictionaryBytes + sizeBytes
  if data.size < stop then .error .cutShort
  if d / 8 % 2 = 1 then .error .corrupt
  let w := byteAt data (start + 1)
  let base := Nat.pow 2 (10 + w / 8)
  let dictionary := littleEndian data (start + 1 + windowBytes) dictionaryBytes
  let size := littleEndian data (stop - sizeBytes) sizeBytes + (if sizeBytes = 2 then 256 else 0)
  let window := if single then size else base + base / 8 * (w % 8)
  if dictionary ≠ 0 || maxWindow < window then .error .corrupt
  .ok ⟨window, if sizeBytes = 0 then none else some size, d / 4 % 2 = 1, stop⟩

/-- The block that a block header starts: what it adds to the output, and the position after it. -/
def readBlock (data : ByteArray) (kind size pos : Nat) (m : Memory) (out : ByteArray) :
    Except Defect (ByteArray × Memory × Nat) :=
  match kind with
  | 0 =>
    if data.size < pos + size then .error .cutShort
    else .ok (out ++ data.extract pos (pos + size), m, pos + size)
  | 1 =>
    if data.size < pos + 1 then .error .cutShort
    else .ok (out ++ ⟨Array.replicate size (byteAt data pos).toUInt8⟩, m, pos + 1)
  | 2 =>
    if data.size < pos + size then .error .cutShort
    else match Block.expand? data pos (pos + size) m out with
      | some (out, m) => .ok (out, m, pos + size)
      | none => .error .corrupt
  | _ => .error .corrupt

/-- The blocks of a frame: what is added to the output before the end or a defect. -/
def readBlocks (data : ByteArray) (h : Header) : Nat → Nat → Memory → ByteArray → Expanded
  | 0, _, _, out => ⟨out, .error .corrupt⟩
  | fuel + 1, pos, m, out =>
    if data.size < pos + 3 then ⟨out, .error .cutShort⟩
    else
      let header := littleEndian data pos 3
      let size := header / 8
      if min h.window maxBlock < size then ⟨out, .error .corrupt⟩
      else
        match readBlock data (header / 2 % 4) size (pos + 3) m out with
        | .error d => ⟨out, .error d⟩
        | .ok (out, m, pos) =>
          if header % 2 = 0 then readBlocks data h fuel pos m out
          else if h.content.any fun n => n ≠ out.size then ⟨out, .error .corrupt⟩
          else if !h.check then ⟨out, .ok pos⟩
          else if data.size < pos + 4 then ⟨out, .error .cutShort⟩
          else if littleEndian data pos 4 ≠ (Xxh64.check out).toNat % Nat.pow 2 32 then
            ⟨out, .error .corrupt⟩
          else ⟨out, .ok (pos + 4)⟩

/-- The frames from a position on, and the defect that ends them early. -/
def readFrames (data : ByteArray) : Nat → Nat → List ByteArray × Option Defect
  | 0, _ => ([], some .corrupt)
  | fuel + 1, pos =>
    if data.size < pos + 4 then ([], some .cutShort)
    else
      let mark := littleEndian data pos 4
      let frame : Expanded :=
        if mark = 0xFD2FB528 then
          match Header.read data (pos + 4) with
          | .error d => ⟨ByteArray.empty, .error d⟩
          | .ok h => readBlocks data h (data.size + 1) h.next .fresh ByteArray.empty
        else if mark / 16 = 0x184D2A5 then
          let stop := pos + 8 + littleEndian data (pos + 4) 4
          ⟨ByteArray.empty, if data.size < pos + 8 || data.size < stop then .error .cutShort else .ok stop⟩
        else ⟨ByteArray.empty, .error .corrupt⟩
      match frame.next with
      | .error d => ([frame.out], some d)
      | .ok pos =>
        if pos = data.size then ([frame.out], none)
        else
          let (rest, d) := readFrames data fuel pos
          (frame.out :: rest, d)

/-- What reading a file through its decompressor yields. -/
def read (data : ByteArray) : ByteStream :=
  let (pieces, d) := readFrames data (data.size + 1) 0
  ⟨pieces, d.map Defect.failure⟩

end GameInstaller.Compression.Zstd
