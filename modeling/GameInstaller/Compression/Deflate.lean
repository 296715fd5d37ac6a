import GameInstaller.Compression.Bits
import GameInstaller.Compression.Checks

/-! # The deflate format

Blocks of bytes and back references, written in prefix codes that are fixed or stand in front of
the block. -/

namespace GameInstaller.Compression.Deflate

/-- Least length and number of further bits for each length symbol. -/
def lengths : Array (Nat × Nat) :=
  #[(3, 0), (4, 0), (5, 0), (6, 0), (7, 0), (8, 0), (9, 0), (10, 0), (11, 1), (13, 1), (15, 1),
    (17, 1), (19, 2), (23, 2), (27, 2), (31, 2), (35, 3), (43, 3), (51, 3), (59, 3), (67, 4),
    (83, 4), (99, 4), (115, 4), (131, 5), (163, 5), (195, 5), (227, 5), (258, 0)]

/-- Least distance and number of further bits for each distance symbol. -/
def distances : Array (Nat × Nat) :=
  #[(1, 0), (2, 0), (3, 0), (4, 0), (5, 1), (7, 1), (9, 2), (13, 2), (17, 3), (25, 3), (33, 4),
    (49, 4), (65, 5), (97, 5), (129, 6), (193, 6), (257, 7), (385, 7), (513, 8), (769, 8),
    (1025, 9), (1537, 9), (2049, 10), (3073, 10), (4097, 11), (6145, 11), (8193, 12), (12289, 12),
    (16385, 13), (24577, 13)]

/-- The order in which the lengths of the code for code lengths are written. -/
def lengthOrder : List Nat := [16, 17, 18, 0, 8, 7, 9, 6, 10, 5, 11, 4, 12, 3, 13, 2, 14, 1, 15]

/-- One bit. -/
def bit (data : ByteArray) (pos : Nat) : Except Defect Nat := takeLow data pos 1

/-- A number given by a table entry and further bits. -/
def extended (data : ByteArray) (table : Array (Nat × Nat)) (symbol pos : Nat) :
    Except Defect (Nat × Nat) :=
  match table[symbol]? with
  | none => .error .corrupt
  | some (least, n) => (takeLow data pos n).map fun more => (least + more, pos + n)

/-- Expand bytes and back references up to the end of the block. -/
def expandBlock (data : ByteArray) (literal distance : PrefixCode) :
    Nat → Nat → ByteArray → Expanded
  | 0, _, out => ⟨out, .error .corrupt⟩
  | fuel + 1, pos, out =>
    match literal.read (bit data) pos with
    | .error d => ⟨out, .error d⟩
    | .ok (symbol, pos) =>
      if symbol < 256 then expandBlock data literal distance fuel pos (out.push symbol.toUInt8)
      else if symbol = 256 then ⟨out, .ok pos⟩
      else
        let reference : Except Defect (Nat × Nat × Nat) := do
          let (length, pos) ← extended data lengths (symbol - 257) pos
          let (symbol, pos) ← distance.read (bit data) pos
          let (back, pos) ← extended data distances symbol pos
          if out.size < back then .error .corrupt else .ok (length, back, pos)
        match reference with
        | .error d => ⟨out, .error d⟩
        | .ok (length, back, pos) =>
          expandBlock data literal distance fuel pos (copyBack back length out)

/-- The code of literals and lengths in blocks without codes of their own. -/
def fixedLiteral : PrefixCode :=
  .ofLengths 15 (List.replicate 144 8 ++ List.replicate 112 9 ++ List.replicate 24 7
    ++ List.replicate 8 8)

/-- The code of distances in blocks without codes of their own. -/
def fixedDistance : PrefixCode := .ofLengths 15 (List.replicate 32 5)

/-- Read `n` code lengths of three bits each. -/
def readTriples (data : ByteArray) : Nat → Nat → Except Defect (List Nat × Nat)
  | 0, pos => .ok ([], pos)
  | n + 1, pos => do
    let l ← takeLow data pos 3
    let (rest, pos) ← readTriples data n (pos + 3)
    .ok (l :: rest, pos)

/-- Read code lengths until there are `total` of them; `acc` has those so far, last first. -/
def readLengths (data : ByteArray) (code : PrefixCode) (total : Nat) :
    Nat → List Nat → Nat → Except Defect (List Nat × Nat)
  | 0, _, _ => .error .corrupt
  | fuel + 1, acc, pos =>
    if total ≤ acc.length then
      if acc.length = total then .ok (acc.reverse, pos) else .error .corrupt
    else do
      let (symbol, pos) ← code.read (bit data) pos
      if symbol < 16 then readLengths data code total fuel (symbol :: acc) pos
      else if symbol = 16 then
        let n ← takeLow data pos 2
        match acc with
        | [] => .error .corrupt
        | l :: _ => readLengths data code total fuel (List.replicate (n + 3) l ++ acc) (pos + 2)
      else if symbol = 17 then
        let n ← takeLow data pos 3
        readLengths data code total fuel (List.replicate (n + 3) 0 ++ acc) (pos + 3)
      else
        let n ← takeLow data pos 7
        readLengths data code total fuel (List.replicate (n + 11) 0 ++ acc) (pos + 7)

/-- A code that leaves no bit sequence without a meaning, or has one word at most. -/
def checked (lengths : List Nat) : Except Defect PrefixCode :=
  let code := PrefixCode.ofLengths 15 lengths
  if code.isComplete || code.symbols.size ≤ 1 then .ok code else .error .corrupt

/-- The codes in front of a block, and the position after them. -/
def readCodes (data : ByteArray) (pos : Nat) : Except Defect (PrefixCode × PrefixCode × Nat) := do
  let literals := (← takeLow data pos 5) + 257
  let distances := (← takeLow data (pos + 5) 5) + 1
  let n := (← takeLow data (pos + 10) 4) + 4
  if 286 < literals || 30 < distances then .error .corrupt
  let (triples, pos) ← readTriples data n (pos + 14)
  let lengthOf (symbol : Nat) : Nat :=
    match (lengthOrder.zip triples).find? fun (s, _) => s = symbol with
    | some (_, l) => l
    | none => 0
  let code := PrefixCode.ofLengths 7 ((List.range 19).map lengthOf)
  if !code.isComplete then .error .corrupt
  let total := literals + distances
  let (all, pos) ← readLengths data code total (total + 1) [] pos
  .ok (← checked (all.take literals), ← checked (all.drop literals), pos)

/-- Expand a block of plain bytes, which start at a byte boundary. -/
def expandStored (data : ByteArray) (pos : Nat) (out : ByteArray) : Expanded :=
  let i := (pos + 7) / 8
  if data.size < i + 4 then ⟨out, .error .cutShort⟩
  else
    let n := littleEndian data i 2
    if n + littleEndian data (i + 2) 2 ≠ 0xFFFF then ⟨out, .error .corrupt⟩
    else
      let taken := data.extract (i + 4) (i + 4 + n)
      ⟨out ++ taken, if taken.size = n then .ok ((i + 4 + n) * 8) else .error .cutShort⟩

/-- Expand blocks up to the last one. -/
def expandBlocks (data : ByteArray) : Nat → Nat → ByteArray → Expanded
  | 0, _, out => ⟨out, .error .corrupt⟩
  | fuel + 1, pos, out =>
    match takeLow data pos 3 with
    | .error d => ⟨out, .error d⟩
    | .ok header =>
      let block : Expanded :=
        if header / 2 = 0 then expandStored data (pos + 3) out
        else if header / 2 = 1 then
          expandBlock data fixedLiteral fixedDistance (data.size * 8 + 1) (pos + 3) out
        else if header / 2 = 2 then
          match readCodes data (pos + 3) with
          | .error d => ⟨out, .error d⟩
          | .ok (literal, distance, pos) =>
            expandBlock data literal distance (data.size * 8 + 1) pos out
        else ⟨out, .error .corrupt⟩
      match block.next with
      | .error _ => block
      | .ok pos => if header % 2 = 1 then block else expandBlocks data fuel pos block.out

/-- How many bytes are handed on at a time; a window with a defect in it is lost. -/
def window : Nat := 32768

/-- Expand the blocks that start at a byte; `next` counts bits. -/
def expand (data : ByteArray) (start : Nat) : Expanded :=
  let e := expandBlocks data (data.size * 8 + 1) (start * 8) ByteArray.empty
  match e.next with
  | .error .corrupt => { e with out := e.out.extract 0 (e.out.size / window * window) }
  | _ => e

end GameInstaller.Compression.Deflate

/-! ## The gzip format

A header, deflated data, and a check of the data and its size.  Only the first member of a file is
read. -/

namespace GameInstaller.Compression.Gzip

open Disk (ByteStream)

/-- The position after the zero byte that ends a text. -/
def skipText (data : ByteArray) : Nat → Nat → Except Defect Nat
  | 0, _ => .error .cutShort
  | fuel + 1, i =>
    if data.size ≤ i then .error .cutShort
    else if byteAt data i = 0 then .ok (i + 1)
    else skipText data fuel (i + 1)

/-- Whether a bit of the header's flags is set. -/
def flag (flags n : Nat) : Bool := flags / Nat.pow 2 n % 2 = 1

/-- Where the deflated data starts. -/
def headerEnd (data : ByteArray) : Except Defect Nat := do
  if data.size < 10 then .error .cutShort
  let flags := byteAt data 3
  if byteAt data 0 ≠ 0x1F || byteAt data 1 ≠ 0x8B || byteAt data 2 ≠ 8 || 32 ≤ flags then
    .error .corrupt
  let i ← if flag flags 2 then
      if data.size < 12 then .error .cutShort else .ok (12 + littleEndian data 10 2)
    else .ok 10
  let i ← if flag flags 3 then skipText data (data.size + 1) i else .ok i
  let i ← if flag flags 4 then skipText data (data.size + 1) i else .ok i
  if flag flags 1 then
    if data.size < i + 2 then .error .cutShort
    else if (Crc32.low (data.extract 0 i)).toNat % 65536 ≠ littleEndian data i 2 then .error .corrupt
    else .ok (i + 2)
  else if data.size < i then .error .cutShort
  else .ok i

/-- What stands behind the data: its check and its size. -/
def checkEnd (data : ByteArray) (i : Nat) (out : ByteArray) : Option Defect :=
  if data.size < i + 8 then some .cutShort
  else if littleEndian data i 4 ≠ (Crc32.low out).toNat then some .corrupt
  else if littleEndian data (i + 4) 4 ≠ out.size % Nat.pow 2 32 then some .corrupt
  else none

/-- What reading a gzip file through its decompressor yields. -/
def read (data : ByteArray) : ByteStream :=
  match headerEnd data with
  | .error d => ⟨[], some d.failure⟩
  | .ok start =>
    let e := Deflate.expand data start
    match e.next with
    | .error d => ⟨[e.out], some d.failure⟩
    | .ok pos => ⟨[e.out], (checkEnd data ((pos + 7) / 8) e.out).map Defect.failure⟩

end GameInstaller.Compression.Gzip
