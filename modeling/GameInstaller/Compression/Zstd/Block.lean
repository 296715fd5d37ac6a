import GameInstaller.Compression.Zstd.Codes

/-! # Compressed blocks

A block is literals and sequences, which are carried out one after the other. -/

/-! ## Sequences

A compressed block is literals and a list of sequences, each of which copies some literals and then
bytes from earlier output.  Lengths and offsets are codes with further bits; the three latest
offsets have short codes. -/

namespace GameInstaller.Compression.Zstd

/-- How much to copy of the literals, how much from earlier output, and from how far back. -/
structure Sequence where
  literals : Nat
  length : Nat
  offset : Nat

namespace Sequence

/-- Least value and number of further bits for each code of a literal length. -/
def literalCodes : Array (Nat × Nat) :=
  ((List.range 16).map fun n => (n, 0)).toArray ++
  #[(16, 1), (18, 1), (20, 1), (22, 1), (24, 2), (28, 2), (32, 3), (40, 3), (48, 4), (64, 6),
    (128, 7), (256, 8), (512, 9), (1024, 10), (2048, 11), (4096, 12), (8192, 13), (16384, 14),
    (32768, 15), (65536, 16)]

/-- Least value and number of further bits for each code of a match length. -/
def lengthCodes : Array (Nat × Nat) :=
  ((List.range 32).map fun n => (n + 3, 0)).toArray ++
  #[(35, 1), (37, 1), (39, 1), (41, 1), (43, 2), (47, 2), (51, 3), (59, 3), (67, 4), (83, 4),
    (99, 5), (131, 7), (259, 8), (515, 9), (1027, 10), (2051, 11), (4099, 12), (8195, 13),
    (16387, 14), (32771, 15), (65539, 16)]

/-- Shares of a table, negative for less than one. -/
def sharesOf (l : List Int) : List Share :=
  l.map fun n => if n < 0 then .lessThanOne else .count n.toNat

/-- The table of literal lengths that needs no description. -/
def literalTable : Fse :=
  .ofShares 6 (sharesOf [4, 3, 2, 2, 2, 2, 2, 2, 2, 2, 2, 2, 2, 1, 1, 1, 2, 2, 2, 2, 2, 2, 2, 2, 2,
    3, 2, 1, 1, 1, 1, 1, -1, -1, -1, -1])

/-- The table of match lengths that needs no description. -/
def lengthTable : Fse :=
  .ofShares 6 (sharesOf [1, 4, 3, 2, 2, 2, 2, 2, 2, 1, 1, 1, 1, 1, 1, 1, 1, 1, 1, 1, 1, 1, 1, 1, 1,
    1, 1, 1, 1, 1, 1, 1, 1, 1, 1, 1, 1, 1, 1, 1, 1, 1, 1, 1, 1, 1, -1, -1, -1, -1, -1, -1, -1])

/-- The table of offsets that needs no description. -/
def offsetTable : Fse :=
  .ofShares 5 (sharesOf [1, 1, 1, 1, 1, 1, 2, 2, 2, 1, 1, 1, 1, 1, 1, 1, 1, 1, 1, 1, 1, 1, 1, 1, -1,
    -1, -1, -1, -1])

/-- The tables that sequences are read with. -/
structure Tables where
  literal : Fse
  offset : Fse
  length : Fse

/-- The offset of a code value, and the latest offsets after it.  Values up to three name the
    latest ones, counted from the second one when there are no literals. -/
def offsetOf (value literals : Nat) : Nat × Nat × Nat → Nat × (Nat × Nat × Nat)
  | (a, b, c) =>
    if 3 < value then (value - 3, (value - 3, a, b))
    else
      match value - 1 + (if literals = 0 then 1 else 0) with
      | 0 => (a, (a, b, c))
      | 1 => (b, (b, a, c))
      | 2 => (c, (c, a, b))
      | _ => (a - 1, (a - 1, a, b))

/-- Read `n` sequences from three states; all bits have to be used. -/
def readAll (t : Tables) : Nat → Nat → Nat → Nat → Nat × Nat × Nat → Backward →
    Option (List Sequence × (Nat × Nat × Nat))
  | 0, _, _, _, latest, b => if b.left = 0 then some ([], latest) else none
  | n + 1, literal, offset, length, latest, b => do
    let offsetCode := t.offset.symbol offset
    if 31 < offsetCode then none
    let (more, b) ← b.read? offsetCode
    let value := Nat.pow 2 offsetCode + more
    let (leastLength, bits) ← lengthCodes[t.length.symbol length]?
    let (more, b) ← b.read? bits
    let copied := leastLength + more
    let (leastLiterals, bits) ← literalCodes[t.literal.symbol literal]?
    let (more, b) ← b.read? bits
    let literals := leastLiterals + more
    let (back, latest) := offsetOf value literals latest
    if back = 0 then none
    let (literal, offset, length, b) ←
      if n = 0 then some (literal, offset, length, b)
      else do
        let (literal, b) ← t.literal.step? literal b
        let (length, b) ← t.length.step? length b
        let (offset, b) ← t.offset.step? offset b
        some (literal, offset, length, b)
    let (rest, latest) ← readAll t n literal offset length latest b
    some (⟨literals, copied, back⟩ :: rest, latest)

/-- Read `n` sequences. -/
def read? (t : Tables) (n : Nat) (latest : Nat × Nat × Nat) (b : Backward) :
    Option (List Sequence × (Nat × Nat × Nat)) := do
  let (literal, b) ← b.read? t.literal.log
  let (offset, b) ← b.read? t.offset.log
  let (length, b) ← b.read? t.length.log
  readAll t n literal offset length latest b

/-- Apply sequences: `used` literals are already copied; what is left of them comes last. -/
def replay? (literals : ByteArray) : List Sequence → Nat → ByteArray → Option ByteArray
  | [], used, out => some (out ++ literals.extract used literals.size)
  | s :: rest, used, out =>
    if literals.size < used + s.literals then none
    else
      let out := out ++ literals.extract used (used + s.literals)
      if out.size < s.offset then none
      else replay? literals rest (used + s.literals) (copyBack s.offset s.length out)

end Sequence

/-! ## Carrying out blocks -/

/-- What one block leaves to the next. -/
structure Memory where
  huffman : Option Huffman
  literal : Option Fse
  offset : Option Fse
  length : Option Fse
  latest : Nat × Nat × Nat

namespace Memory

/-- Before the first block. -/
def fresh : Memory := ⟨none, none, none, none, (1, 4, 8)⟩

end Memory

/-- The most bytes of a block. -/
def maxBlock : Nat := 131072

namespace Block

/-- Literals written in four streams, each with a quarter of them. -/
def fourStreams? (h : Huffman) (data : ByteArray) (start stop total : Nat) : Option ByteArray := do
  if stop < start + 6 then none
  let one := littleEndian data start 2
  let two := littleEndian data (start + 2) 2
  let three := littleEndian data (start + 4) 2
  let body := start + 6
  if stop ≤ body + one + two + three then none
  let share := (total + 3) / 4
  if total < 3 * share then none
  let out ← h.decode? share (← Backward.ofPart? data body one) ByteArray.empty
  let out ← h.decode? share (← Backward.ofPart? data (body + one) two) out
  let out ← h.decode? share (← Backward.ofPart? data (body + one + two) three) out
  let last := body + one + two + three
  h.decode? (total - 3 * share) (← Backward.ofPart? data last (stop - last)) out

/-- The literals of a block that ends at `stop`, the bytes after them and what is kept. -/
def literals? (data : ByteArray) (start stop : Nat) (m : Memory) :
    Option (ByteArray × Nat × Memory) := do
  let header := byteAt data start
  let kind := header % 4
  let form := header / 4 % 4
  if kind < 2 then
    let (size, body) :=
      if form % 2 = 0 then (header / 8, start + 1)
      else if form = 1 then (littleEndian data start 2 / 16, start + 2)
      else (littleEndian data start 3 / 16, start + 3)
    if kind = 0 then
      if stop < body + size then none
      some (data.extract body (body + size), body + size, m)
    else
      if stop < body + 1 || maxBlock < size then none
      some (⟨Array.replicate size (byteAt data body).toUInt8⟩, body + 1, m)
  else
    let (bytes, width) := if form < 2 then (3, 10) else if form = 2 then (4, 14) else (5, 18)
    let sizes := littleEndian data start bytes / 16
    let total := sizes % Nat.pow 2 width
    let packed := sizes / Nat.pow 2 width
    let body := start + bytes
    let after := body + packed
    if stop < after || maxBlock < total then none
    let (h, body) ←
      if kind = 2 then Huffman.read? data body
      else m.huffman.map fun h => (h, body)
    if after < body then none
    let out ←
      if form = 0 then h.decode? total (← Backward.ofPart? data body (after - body)) ByteArray.empty
      else fourStreams? h data body after total
    some (out, after, { m with huffman := some h })

/-- A table of sequences: the usual one, one of a single symbol, a described one or the one before;
    and the bytes after it. -/
def table? (data : ByteArray) (mode start mostLog most : Nat) (usual : Fse) (before : Option Fse) :
    Option (Fse × Nat) :=
  match mode with
  | 0 => some (usual, start)
  | 1 => if most < byteAt data start then none else some (.ofSymbol (byteAt data start), start + 1)
  | 2 => Fse.read? data start mostLog most
  | _ => before.map fun t => (t, start)

/-- The number of sequences, and the bytes after it. -/
def sequenceCount (data : ByteArray) (start : Nat) : Nat × Nat :=
  let b := byteAt data start
  if b < 128 then (b, start + 1)
  else if b < 255 then ((b - 128) * 256 + byteAt data (start + 1), start + 2)
  else (littleEndian data (start + 1) 2 + 0x7F00, start + 3)

/-- Expand a block behind earlier output of its frame. -/
def expand? (data : ByteArray) (start stop : Nat) (m : Memory) (out : ByteArray) :
    Option (ByteArray × Memory) := do
  let (literals, pos, m) ← literals? data start stop m
  if stop ≤ pos then none
  let (n, pos) := sequenceCount data pos
  if n = 0 then
    if pos ≠ stop then none
    some (out ++ literals, m)
  else
    let modes := byteAt data pos
    if stop ≤ pos || modes % 4 ≠ 0 then none
    let (literal, pos) ← table? data (modes / 64) (pos + 1) 9 35 Sequence.literalTable m.literal
    let (offset, pos) ← table? data (modes / 16 % 4) pos 8 31 Sequence.offsetTable m.offset
    let (length, pos) ← table? data (modes / 4 % 4) pos 9 52 Sequence.lengthTable m.length
    if stop ≤ pos then none
    let bits ← Backward.ofPart? data pos (stop - pos)
    let (sequences, latest) ← Sequence.read? ⟨literal, offset, length⟩ n m.latest bits
    let expanded ← Sequence.replay? literals sequences 0 out
    if maxBlock < expanded.size - out.size then none
    some (expanded,
      { m with literal := some literal, offset := some offset, length := some length, latest })

end Block

end GameInstaller.Compression.Zstd
