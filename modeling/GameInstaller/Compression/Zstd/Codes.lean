import GameInstaller.Compression.Bits

/-! # Codes of compressed blocks

The two kinds of codes that compressed blocks are written in. -/

/-! ## Finite state entropy codes

A code given by the share that each symbol has of a table.  Reading a symbol leads to a state of
the table, and the state and further bits lead to the next one.  The bits are read from the end of
the data to its start. -/

namespace GameInstaller.Compression.Zstd

/-- One state: its symbol, how many bits the next state needs, and the least next state. -/
structure Cell where
  symbol : Nat
  bits : Nat
  base : Nat
  deriving Inhabited

/-- A code as its table of states. -/
structure Fse where
  /-- The binary logarithm of the table's size. -/
  log : Nat
  cells : Array Cell

/-- A share of a table: a number of states, or less than one. -/
inductive Share where
  | count (n : Nat)
  | lessThanOne
  deriving DecidableEq, Inhabited

namespace Share

/-- The number of states of a share. -/
def states : Share → Nat
  | count n => n
  | lessThanOne => 1

end Share

/-- Bits read from the end of a part of a byte string back to its start. -/
structure Backward where
  data : ByteArray
  /-- Where the part starts, in bytes. -/
  start : Nat
  /-- How many bits are left. -/
  left : Nat

namespace Backward

/-- The bits of a part of the data; the highest bit of its last byte only marks the end. -/
def ofPart? (data : ByteArray) (start size : Nat) : Option Backward :=
  if size = 0 || data.size < start + size then none
  else
    let final := byteAt data (start + size - 1)
    if final = 0 then none else some ⟨data, start, (size - 1) * 8 + final.log2⟩

/-- The next `n` bits, without going past them; zeros stand in for those before the start. -/
def peek (b : Backward) (n : Nat) : Nat :=
  if n ≤ b.left then lowFirst b.data (b.start * 8 + (b.left - n)) n
  else lowFirst b.data (b.start * 8) b.left * Nat.pow 2 (n - b.left)

/-- The next `n` bits, if there are so many. -/
def read? (b : Backward) (n : Nat) : Option (Nat × Backward) :=
  if n ≤ b.left then some (b.peek n, { b with left := b.left - n }) else none

end Backward

namespace Fse

/-- Further shares of zero, in groups of up to three. -/
def readZeros (data : ByteArray) : Nat → Nat → Nat × Nat
  | 0, pos => (0, pos)
  | fuel + 1, pos =>
    let n := lowFirst data pos 2
    if n = 3 then
      let (more, pos) := readZeros data fuel (pos + 2)
      (n + more, pos)
    else (n, pos + 2)

/-- Read shares until the table is full.  `left` counts the states that are left, and one; `acc`
    has the shares so far, last first. -/
def readShares (data : ByteArray) (most : Nat) : Nat → Nat → List Share → Nat →
    Option (List Share × Nat)
  | 0, _, _, _ => none
  | fuel + 1, left, acc, pos =>
    if left ≤ 1 then
      if left = 1 && acc.length ≤ most + 1 then some (acc.reverse, pos) else none
    else if most < acc.length then none
    else
      let width := left.log2
      let half := Nat.pow 2 width
      let short := 2 * half - 1 - left
      let low := lowFirst data pos width
      let full := lowFirst data pos (width + 1)
      let (value, pos) :=
        if low < short then (low, pos + width)
        else if half ≤ full then (full - short, pos + width + 1)
        else (full, pos + width + 1)
      match value with
      | 0 => readShares data most fuel (left - 1) (.lessThanOne :: acc) pos
      | 1 =>
        let (zeros, pos) := readZeros data (data.size * 8) pos
        readShares data most fuel left (List.replicate (zeros + 1) (.count 0) ++ acc) pos
      | n + 2 => readShares data most fuel (left - (n + 1)) (.count (n + 1) :: acc) pos

/-- The next place for a symbol that is not in the region at the end. -/
def nextPlace (mask step high : Nat) : Nat → Nat → Nat
  | 0, place => place
  | fuel + 1, place =>
    let place := (place + step) % (mask + 1)
    if high < place then nextPlace mask step high fuel place else place

/-- The table of shares. -/
def ofShares (log : Nat) (shares : List Share) : Fse :=
  let size := Nat.pow 2 log
  let mask := size - 1
  let step := size / 2 + size / 8 + 3
  let indexed := shares.zipIdx
  let rare := (indexed.filter fun (s, _) => s = .lessThanOne).map (·.2)
  let high := mask - rare.length
  let blank : Array Nat := Array.replicate size 0
  let fromEnd := rare.zipIdx.foldl (fun t (symbol, k) => t.setIfInBounds (mask - k) symbol) blank
  let (symbols, _) := indexed.foldl (fun (t, place) (share, symbol) =>
    match share with
    | .lessThanOne => (t, place)
    | .count n => (List.range n).foldl (fun (t, place) _ =>
        (t.setIfInBounds place symbol, nextPlace mask step high size place)) (t, place))
    (fromEnd, 0)
  let first := (shares.map Share.states).toArray
  let (cells, _) := symbols.foldl (fun (cells, next) symbol =>
    let n := next.getD symbol 1
    let bits := log - n.log2
    (cells.push ⟨symbol, bits, n * Nat.pow 2 bits - size⟩, next.modify symbol (· + 1))) (#[], first)
  ⟨log, cells⟩

/-- The table with one state. -/
def ofSymbol (symbol : Nat) : Fse := ⟨0, #[⟨symbol, 0, 0⟩]⟩

/-- Read a table of at most `2 ^ mostLog` states for the symbols up to `most`; the bytes after it
    are at the second result. -/
def read? (data : ByteArray) (start mostLog most : Nat) : Option (Fse × Nat) :=
  let log := lowFirst data (start * 8) 4 + 5
  if mostLog < log then none
  else
    match readShares data most (data.size * 8 + 2) (Nat.pow 2 log + 1) [] (start * 8 + 4) with
    | none => none
    | some (shares, pos) =>
      if data.size * 8 < pos then none else some (ofShares log shares, (pos + 7) / 8)

/-- The state that a state leads to. -/
def step? (t : Fse) (state : Nat) (b : Backward) : Option (Nat × Backward) := do
  let cell ← t.cells[state]?
  let (more, b) ← b.read? cell.bits
  some (cell.base + more, b)

/-- The symbol of a state. -/
def symbol (t : Fse) (state : Nat) : Nat := (t.cells.getD state ⟨0, 0, 0⟩).symbol

end Fse

/-! ## Huffman codes of literals

Codes given by weights: a symbol of weight `w` has a share of `2 ^ (w - 1)` of the table, and one
of weight zero does not occur.  The weight of the last symbol fills the table up. -/

/-- A code as a table of a symbol and its number of bits for each possible next bits. -/
structure Huffman where
  /-- The number of bits of the longest word. -/
  log : Nat
  cells : Array (Nat × Nat)

namespace Huffman

/-- The longest word of a code. -/
def longest : Nat := 11

/-- The code of weights, of which the last is missing. -/
def ofWeights? (weights : List Nat) : Option Huffman :=
  let total := (weights.map fun w => if w = 0 then 0 else Nat.pow 2 (w - 1)).foldl (· + ·) 0
  if total = 0 then none
  else
    let log := total.log2 + 1
    let rest := Nat.pow 2 log - total
    if longest < log || Nat.pow 2 rest.log2 ≠ rest then none
    else
      let all := (weights ++ [rest.log2 + 1]).zipIdx
      let ofWeight (w : Nat) : List (Nat × Nat) :=
        (all.filter fun (v, _) => v = w).flatMap fun (_, symbol) =>
          List.replicate (Nat.pow 2 (w - 1)) (symbol, log + 1 - w)
      some ⟨log, ((List.range log).flatMap fun w => ofWeight (w + 1)).toArray⟩

/-- Weights of four bits each. -/
def directWeights (data : ByteArray) (start n : Nat) : List Nat :=
  (List.range n).map fun k =>
    let b := byteAt data (start + k / 2)
    if k % 2 = 0 then b / 16 else b % 16

/-- Weights read by two states that take turns, until the bits run out. -/
def readTurns (t : Fse) : Nat → Nat → Nat → Backward → Option (List Nat)
  | 0, _, _, _ => none
  | fuel + 1, one, other, b =>
    match t.step? one b with
    | none => some [t.symbol one, t.symbol other]
    | some (one', b) => (readTurns t fuel other one' b).map (t.symbol one :: ·)

/-- Read a code; the bytes after it are at the second result. -/
def read? (data : ByteArray) (start : Nat) : Option (Huffman × Nat) := do
  let header := byteAt data start
  if 128 ≤ header then
    let n := header - 127
    let stop := start + 1 + (n + 1) / 2
    if data.size < stop then none
    else some (← ofWeights? (directWeights data (start + 1) n), stop)
  else
    let stop := start + 1 + header
    if data.size < stop then none
    let (t, body) ← Fse.read? data (start + 1) 6 255
    if stop ≤ body then none
    let b ← Backward.ofPart? data body (stop - body)
    let (one, b) ← b.read? t.log
    let (other, b) ← b.read? t.log
    let weights ← readTurns t 256 one other b
    if 255 < weights.length then none
    some (← ofWeights? weights, stop)

/-- Read `n` symbols, which have to use up the bits. -/
def decode? (h : Huffman) : Nat → Backward → ByteArray → Option ByteArray
  | 0, b, out => if b.left = 0 then some out else none
  | n + 1, b, out =>
    match h.cells[b.peek h.log]? with
    | none => none
    | some (symbol, bits) =>
      if b.left < bits then none
      else decode? h n { b with left := b.left - bits } (out.push symbol.toUInt8)

end Huffman

end GameInstaller.Compression.Zstd
