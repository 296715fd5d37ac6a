import GameInstaller.Compression.Bits
import GameInstaller.Compression.Checks

/-! # The bzip2 format

Blocks of up to 900 000 bytes.  The bytes of a block had their runs shortened, were sorted by what
follows them, turned into places in a list that moves each used byte to its front, and written in
several prefix codes that take turns every 50 symbols. -/

namespace GameInstaller.Compression.Bzip2

open Disk (ByteStream)

/-- One bit. -/
def bit (data : ByteArray) (pos : Nat) : Except Defect Nat := takeHigh data pos 1

/-- The bytes that occur in a block: one bit for each sixteen of them, then one for each. -/
def readUsed (data : ByteArray) (pos : Nat) : Except Defect (List UInt8 × Nat) := do
  let groups ← takeHigh data pos 16
  let rec go : List Nat → Nat → Except Defect (List UInt8 × Nat)
    | [], pos => .ok ([], pos)
    | g :: rest, pos =>
      if groups / Nat.pow 2 (15 - g) % 2 = 0 then go rest pos
      else do
        let members ← takeHigh data pos 16
        let here := (List.range 16).filter fun k => members / Nat.pow 2 (15 - k) % 2 = 1
        let (more, pos) ← go rest (pos + 16)
        .ok (here.map (fun k => (g * 16 + k).toUInt8) ++ more, pos)
  go (List.range 16) (pos + 16)

/-- The number of one bits before the next zero bit, at most `most`. -/
def readUnary (data : ByteArray) : Nat → Nat → Except Defect (Nat × Nat)
  | 0, _ => .error .corrupt
  | most + 1, pos => do
    if (← bit data pos) = 0 then .ok (0, pos + 1)
    else
      let (n, pos) ← readUnary data most (pos + 1)
      .ok (n + 1, pos)

/-- A list with the entry at a place moved to its front, and that entry. -/
def toFront {α : Type} (l : List α) (i : Nat) : Option (α × List α) :=
  l[i]?.map fun x => (x, x :: (l.take i ++ l.drop (i + 1)))

/-- The code used for each 50 symbols; `order` has the codes used last first. -/
def readSelectors (data : ByteArray) (codes : Nat) : Nat → List Nat → Nat → Except Defect (List Nat × Nat)
  | 0, _, pos => .ok ([], pos)
  | n + 1, order, pos => do
    let (place, pos) ← readUnary data codes pos
    match toFront order place with
    | none => .error .corrupt
    | some (code, order) =>
      let (rest, pos) ← readSelectors data codes n order pos
      .ok (code :: rest, pos)

/-- The longest word of a code. -/
def longest : Nat := 20

/-- A word length: the one before it with steps up and down. -/
def readLength (data : ByteArray) : Nat → Nat → Nat → Except Defect (Nat × Nat)
  | 0, _, _ => .error .corrupt
  | fuel + 1, length, pos =>
    if length < 1 || longest < length then .error .corrupt
    else do
      if (← bit data pos) = 0 then .ok (length, pos + 1)
      else if (← bit data (pos + 1)) = 0 then readLength data fuel (length + 1) (pos + 2)
      else readLength data fuel (length - 1) (pos + 2)

/-- The word lengths of a code for `n` symbols. -/
def readLengths (data : ByteArray) : Nat → Nat → Nat → Except Defect (List Nat × Nat)
  | 0, _, pos => .ok ([], pos)
  | n + 1, length, pos => do
    let (length, pos) ← readLength data (data.size * 8 + 1) length pos
    let (rest, pos) ← readLengths data n length pos
    .ok (length :: rest, pos)

/-- `k` codes for `n` symbols each. -/
def readCodes (data : ByteArray) (n : Nat) : Nat → Nat → Except Defect (List PrefixCode × Nat)
  | 0, pos => .ok ([], pos)
  | k + 1, pos => do
    let start ← takeHigh data pos 5
    let (lengths, pos) ← readLengths data n start (pos + 5)
    let (rest, pos) ← readCodes data n k pos
    .ok (PrefixCode.ofLengths longest lengths :: rest, pos)

/-- The symbols of a block, from its codes on. -/
structure Symbols where
  data : ByteArray
  codes : Array PrefixCode
  selectors : Array Nat
  /-- The symbol that ends the block. -/
  last : Nat
  /-- The most bytes that a block may hold. -/
  limit : Nat

/-- Read the sorted bytes of a block.  `n` counts the symbols before, `run` the bytes of the run
    under way and `unit` what its next digit counts. -/
def readSorted (s : Symbols) : Nat → Nat → List UInt8 → Nat → Nat → ByteArray → Nat →
    Except Defect (ByteArray × Nat)
  | 0, _, _, _, _, _, _ => .error .corrupt
  | fuel + 1, n, order, run, unit, out, pos => do
    let code ← match (s.selectors[n / 50]?).bind (s.codes[·]?) with
      | some code => .ok code
      | none => .error .corrupt
    let (symbol, pos) ← code.read (bit s.data) pos
    if symbol < 2 then
      let run := run + unit * (symbol + 1)
      if s.limit < out.size + run then .error .corrupt
      else readSorted s fuel (n + 1) order run (unit * 2) out pos
    else
      let out := out ++ ⟨(List.replicate run (order.headD 0)).toArray⟩
      if symbol = s.last then .ok (out, pos)
      else
        match toFront order (symbol - 1) with
        | none => .error .corrupt
        | some (b, order) =>
          if s.limit ≤ out.size then .error .corrupt
          else readSorted s fuel (n + 1) order 0 1 (out.push b) pos

/-- For each place among the sorted bytes, the place of the byte that follows it. -/
def successors (sorted : ByteArray) : Array Nat :=
  let counts := sorted.foldl (fun c b => c.modify b.toNat (· + 1)) (Array.replicate 256 0)
  let starts := (counts.foldl (fun (starts, sum) n => (starts.push sum, sum + n)) (#[], 0)).1
  ((List.range sorted.size).foldl (fun (next, free) i =>
    let b := byteAt sorted i
    (next.setIfInBounds (free.getD b 0) i, free.modify b (· + 1)))
    (Array.replicate sorted.size 0, starts)).1

/-- The bytes of a block in their order before they were sorted. -/
def unsort (sorted : ByteArray) (origin : Nat) : ByteArray :=
  let next := successors sorted
  ((List.range sorted.size).foldl (fun (out, place) _ =>
    let place := next.getD place 0
    (out.push (byteAt sorted place).toUInt8, place)) (ByteArray.empty, origin)).1

/-- Bytes with their runs at full length: four equal bytes are followed by a count of more. -/
def lengthen (bytes : ByteArray) : ByteArray :=
  (bytes.foldl (fun (out, same, before) b =>
    if same = 4 then (out ++ ⟨(List.replicate b.toNat before).toArray⟩, 0, b)
    else if same = 0 then (out.push b, 1, b)
    else (out.push b, if b = before then same + 1 else 1, b)) (ByteArray.empty, 0, 0)).1

/-- A block from behind its mark: what it holds, its check and the position after it. -/
def readBlock (data : ByteArray) (limit pos : Nat) : Except Defect (ByteArray × Nat × Nat) := do
  let check ← takeHigh data pos 32
  if (← bit data (pos + 32)) = 1 then .error .corrupt
  let origin ← takeHigh data (pos + 33) 24
  let (used, pos) ← readUsed data (pos + 57)
  if used.isEmpty then .error .corrupt
  let codes ← takeHigh data pos 3
  let selectors ← takeHigh data (pos + 3) 15
  if codes < 2 || 6 < codes || selectors < 1 then .error .corrupt
  let (chosen, pos) ← readSelectors data codes selectors (List.range codes) (pos + 18)
  let (codes, pos) ← readCodes data (used.length + 2) codes pos
  let symbols : Symbols :=
    { data, codes := codes.toArray, selectors := chosen.toArray, last := used.length + 1, limit }
  let (sorted, pos) ← readSorted symbols (data.size * 8 + 1) 0 used 0 1 ByteArray.empty pos
  if sorted.size ≤ origin then .error .corrupt
  .ok (lengthen (unsort sorted origin), check, pos)

/-- What stands in front of a block. -/
def blockMark : Nat := 0x314159265359

/-- What stands behind the last block. -/
def endMark : Nat := 0x177245385090

/-- The check of all blocks so far. -/
def combine (all block : Nat) : Nat := Nat.xor ((all * 2 + all / Nat.pow 2 31) % Nat.pow 2 32) block

/-- The blocks from a position on, and the defect that ends them early. -/
def readBlocks (data : ByteArray) (limit : Nat) :
    Nat → Nat → Nat → List ByteArray × Option Defect
  | 0, _, _ => ([], some .corrupt)
  | fuel + 1, all, pos =>
    match takeHigh data pos 48 with
    | .error d => ([], some d)
    | .ok mark =>
      if mark = blockMark then
        match readBlock data limit (pos + 48) with
        | .error d => ([], some d)
        | .ok (out, check, pos) =>
          if check ≠ (Crc32.high out).toNat then ([out], some .corrupt)
          else
            let (rest, d) := readBlocks data limit fuel (combine all check) pos
            (out :: rest, d)
      else if mark = endMark then
        match takeHigh data (pos + 48) 32 with
        | .error d => ([], some d)
        | .ok check => ([], if check = all then none else some .corrupt)
      else ([], some .corrupt)

/-- What reading a bzip2 file through its decompressor yields. -/
def read (data : ByteArray) : ByteStream :=
  let level := byteAt data 3
  if data.size < 4 then ⟨[], some Defect.cutShort.failure⟩
  else if (data.extract 0 3).toList ≠ "BZh".toUTF8.toList || level < 0x31 || 0x39 < level then
    ⟨[], some Defect.corrupt.failure⟩
  else
    let (blocks, d) := readBlocks data ((level - 0x30) * 100000) (data.size + 1) 0 32
    ⟨blocks, d.map Defect.failure⟩

end GameInstaller.Compression.Bzip2
