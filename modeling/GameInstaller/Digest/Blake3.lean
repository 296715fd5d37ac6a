import GameInstaller.Digest.Blocks

/-! # BLAKE3

The unkeyed 32-byte digest: chunks of 1024 bytes are compressed block by block into chaining
values, which are combined pairwise, level by level, up to a single root.  An odd value at the end
of a level moves up as it is, which gives the tree whose left subtrees are the largest complete
ones. -/

namespace GameInstaller.Digest.Blake3

/-- A chaining value of eight words. -/
structure Chaining where
  words : Array UInt32

/-- The chaining value every chunk and every parent starts from. -/
def start : Chaining := ⟨Sha256.initial.words.toArray⟩

def chunkStart : UInt32 := 1
def chunkEnd : UInt32 := 2
def parent : UInt32 := 4
def root : UInt32 := 8

/-- Where each word of a block goes for the next round. -/
def permutation : Array Nat := #[2, 6, 3, 10, 7, 0, 4, 13, 1, 11, 12, 5, 9, 14, 15, 8]

/-- The quarter round on four of the sixteen state words. -/
def quarter (v : Array UInt32) (a b c d : Nat) (x y : UInt32) : Array UInt32 :=
  let va := wordAt v a + wordAt v b + x
  let vd := rotr (wordAt v d ^^^ va) 16
  let vc := wordAt v c + vd
  let vb := rotr (wordAt v b ^^^ vc) 12
  let va := va + vb + y
  let vd := rotr (vd ^^^ va) 8
  let vc := vc + vd
  let vb := rotr (vb ^^^ vc) 7
  (((v.setIfInBounds a va).setIfInBounds b vb).setIfInBounds c vc).setIfInBounds d vd

/-- One round: the columns, then the diagonals. -/
def round (v m : Array UInt32) : Array UInt32 :=
  let w := wordAt m
  let v := quarter v 0 4 8 12 (w 0) (w 1)
  let v := quarter v 1 5 9 13 (w 2) (w 3)
  let v := quarter v 2 6 10 14 (w 4) (w 5)
  let v := quarter v 3 7 11 15 (w 6) (w 7)
  let v := quarter v 0 5 10 15 (w 8) (w 9)
  let v := quarter v 1 6 11 12 (w 10) (w 11)
  let v := quarter v 2 7 8 13 (w 12) (w 13)
  quarter v 3 4 9 14 (w 14) (w 15)

/-- Seven rounds, the block permuted between them. -/
def rounds : Nat → Array UInt32 → Array UInt32 → Array UInt32
  | 0, v, _ => v
  | n + 1, v, m => rounds n (round v m) (permutation.map (wordAt m))

/-- The chaining value after a block of sixteen words. -/
def compress (cv : Chaining) (block : Array UInt32) (counter length : Nat) (flags : UInt32) :
    Chaining :=
  let v := cv.words ++ start.words.extract 0 4
    ++ #[UInt32.ofNat counter, UInt32.ofNat (counter / Nat.pow 2 32), UInt32.ofNat length, flags]
  let v := rounds 7 v block
  ⟨(Array.range 8).map fun k => wordAt v k ^^^ wordAt v (k + 8)⟩

/-- The words of the block at `offset`. -/
def blockWords (data : ByteArray) (offset : Nat) : Array UInt32 :=
  (Array.range 16).map fun k => wordLE data (offset + 4 * k)

/-- The chaining value of chunk `index`; `final` is added to the flags of its last block. -/
def chunkValue (data : ByteArray) (index : Nat) (final : UInt32) : Chaining :=
  let chunk := data.extract (1024 * index) (1024 * (index + 1))
  let blocks := max 1 ((chunk.size + 63) / 64)
  (List.range blocks).foldl (fun cv k =>
    let first := if k = 0 then chunkStart else 0
    let last := if k + 1 = blocks then chunkEnd ||| final else 0
    compress cv (blockWords chunk (64 * k)) index (min 64 (chunk.size - 64 * k)) (first ||| last))
    start

/-- The value of the parent of two nodes. -/
def parentValue (l r : Chaining) (final : UInt32) : Chaining :=
  compress start (l.words ++ r.words) 0 64 (parent ||| final)

/-- The next level of the tree. -/
def pairUp : List Chaining → List Chaining
  | l :: r :: rest => parentValue l r 0 :: pairUp rest
  | rest => rest

theorem length_pairUp_le : ∀ cvs : List Chaining, (pairUp cvs).length ≤ cvs.length
  | [] => by simp [pairUp]
  | [_] => by simp [pairUp]
  | _ :: _ :: rest => by
    have := length_pairUp_le rest
    simp only [pairUp, List.length_cons]
    omega

/-- The root value over a level of at least two nodes. -/
def rootValue : List Chaining → Chaining
  | [] => start
  | [cv] => cv
  | [l, r] => parentValue l r root
  | l :: r :: rest => rootValue (parentValue l r 0 :: pairUp rest)
termination_by cvs => cvs.length
decreasing_by
  have := length_pairUp_le rest
  simp only [List.length_cons]
  omega

/-- The 32 bytes of the digest. -/
def digest (data : ByteArray) : List UInt8 :=
  let chunks := max 1 ((data.size + 1023) / 1024)
  let value :=
    if chunks = 1 then chunkValue data 0 root
    else rootValue ((List.range chunks).map fun k => chunkValue data k 0)
  value.words.toList.flatMap bytesLE

end GameInstaller.Digest.Blake3
