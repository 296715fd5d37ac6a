import GameInstaller.Archive.Tar.Header

/-! # Members of a tar archive

A member is a header and its data.  Members of some kinds only describe the one after them: a long
name, a long link, or records. -/

namespace GameInstaller.Archive.Tar

open Disk (IoError)
open Compression (byteAt)

/-- A stretch of the content of a member. -/
inductive Stretch where
  /-- Bytes of the archive. -/
  | bytes (start size : Nat)
  /-- A hole, up to this offset. -/
  | hole (size : Nat)

/-- A member. -/
structure Member where
  header : Header
  name : List UInt8
  link : Option (List UInt8)
  content : List Stretch
  /-- Where the header after it is. -/
  next : Nat

/-- A header with its data, before anything that describes it is taken into account. -/
structure Raw where
  header : Header
  start : Nat
  size : Nat
  /-- Where the next header is. -/
  next : Nat

/-- A position past data of a size, at the next block. -/
def pastData (start size : Nat) : Nat := start + (size + (blockSize - 1)) / blockSize * blockSize

/-- The header at a position, or none at the end of the archive.  `records` may give the size. -/
def raw? (s : Source) (pos : Nat) (records : Option (List UInt8)) : Except IoError (Option Raw) :=
  if s.data.size < pos then .error (s.beyond "unexpected EOF during skip")
  else if s.data.size = pos then
    match s.failure with
    | some e => .error e
    | none => .ok none
  else if s.data.size < pos + blockSize then .error (s.beyond "failed to read entire block")
  else
    let h : Header := ⟨s.data, pos⟩
    if h.isBlank then .ok none
    else if !h.isWhole then .error (complaint "archive header checksum mismatch")
    else
      match h.size? with
      | none => .error (complaint "numeric field was not a number")
      | some size =>
        let size := (records.bind fun r => number? r "size").getD size
        let start := pos + blockSize
        let next := pastData start size
        if countLimit ≤ next then .error (complaint "size overflow")
        else .ok (some ⟨h, start, size, next⟩)

/-- The data of a member that describes another. -/
def Raw.read (r : Raw) (s : Source) : Except IoError (List UInt8) :=
  if s.data.size < r.start + r.size then
    match s.failure with
    | some e => .error e
    | none => .ok (s.data.extract r.start s.data.size).toList
  else .ok (s.data.extract r.start (r.start + r.size)).toList

/-- What describes the next member. -/
structure Description where
  name : Option (List UInt8)
  link : Option (List UInt8)
  records : Option (List UInt8)

/-- Bytes without one zero at their end. -/
def dropZero (bytes : List UInt8) : List UInt8 :=
  if bytes.getLast? = some 0 then bytes.dropLast else bytes

/-- The letter of a kind of member. -/
def letter (c : Char) : UInt8 := c.toNat.toUInt8

/-! ## Holes -/

/-- How far the stretches of a member with holes got. -/
structure Progress where
  offset : Nat
  /-- How many bytes the archive has had for the member. -/
  used : Nat
  /-- Stretches so far, last first; their bytes are counted from the member's first one. -/
  acc : List Stretch

/-- Take one stretch of bytes into account; an entry without an offset or a size is none. -/
def addStretch (size : Nat) (h : Header) (place : Nat) (p : Progress) : Except IoError Progress :=
  if byteAt h.data (h.start + place) = 0 || byteAt h.data (h.start + place + 12) = 0 then .ok p
  else
    match h.number? place 12, h.number? (place + 12) 12 with
    | some offset, some length =>
      if length ≠ 0 && p.used % blockSize ≠ 0 then
        .error (complaint "previous block in sparse file was not aligned to 512-byte boundary")
      else if offset < p.offset then .error (complaint "out of order or overlapping sparse blocks")
      else if countLimit ≤ offset + length then
        .error (complaint "more bytes listed in sparse file than can be counted")
      else if size < p.used + length then
        .error (complaint "sparse file consumed more data than the header listed")
      else
        let acc := if p.offset < offset then .hole (offset - p.offset) :: p.acc else p.acc
        .ok ⟨offset + length, p.used + length, .bytes p.used length :: acc⟩
    | _, _ => .error (complaint "numeric field was not a number")

/-- Take the stretches of one header into account. -/
def addStretches (size : Nat) (h : Header) : List Nat → Progress → Except IoError Progress
  | [], p => .ok p
  | place :: r, p =>
    match addStretch size h place p with
    | .error e => .error e
    | .ok p => addStretches size h r p

/-- Take the stretches of further headers into account, each of which says whether one more
    follows; the bytes behind the last one are at the second result. -/
def addFurther (s : Source) (size : Nat) : Nat → Nat → Progress → Except IoError (Progress × Nat)
  | 0, _, _ => .error (complaint "failed to read extension")
  | fuel + 1, pos, p =>
    if s.data.size < pos + blockSize then .error (s.beyond "failed to read extension")
    else
      let h : Header := ⟨s.data, pos⟩
      match addStretches size h ((List.range 21).map (· * 24)) p with
      | .error e => .error e
      | .ok p =>
        if byteAt h.data (pos + 504) = 1 then addFurther s size fuel (pos + blockSize) p
        else .ok (p, pos + blockSize)

/-- A stretch whose bytes are counted from the start of the archive. -/
def Stretch.shift (start : Nat) : Stretch → Stretch
  | bytes pos size => bytes (start + pos) size
  | hole size => hole size

/-- The stretches of a member with holes, and how many bytes its further headers take. -/
def stretches (s : Source) (r : Raw) : Except IoError (List Stretch × Nat) := do
  if !r.header.isExtended then throw (complaint "sparse entry type listed but not GNU header")
  let places := (List.range 4).map fun k => 386 + k * 24
  let p ← addStretches r.size r.header places ⟨0, 0, []⟩
  let (p, pos) ←
    if byteAt s.data (r.header.start + 482) = 1 then addFurther s r.size (s.data.size + 1) r.start p
    else pure (p, r.start)
  if r.header.number? 483 12 ≠ some p.offset then
    throw (complaint "mismatch in sparse file chunks and size in header")
  if p.used < r.size then throw (complaint "mismatch in sparse file chunks and entry size in header")
  pure (p.acc.reverse.map (·.shift pos), pos - r.start)

/-! ## Members -/

/-- A header together with what describes it. -/
def Raw.member (s : Source) (r : Raw) (d : Description) : Except IoError Member := do
  let fromRecords (key : String) : Option (List UInt8) := d.records.bind fun b => value? b key
  let name := ((d.name.map dropZero).orElse fun _ => fromRecords "path").getD r.header.name
  let link := ((d.link.map dropZero).orElse fun _ => fromRecords "linkpath").orElse fun _ =>
    r.header.link?
  let (content, further) ←
    if r.header.kind = letter 'S' then stretches s r
    else pure ([Stretch.bytes r.start r.size], 0)
  pure ⟨r.header, name, link, content, r.next + further⟩

/-- The member at a position, or none at the end of the archive. -/
def member? (s : Source) : Nat → Description → Nat → Except IoError (Option Member)
  | 0, _, _ => .error (complaint "unexpected EOF during skip")
  | fuel + 1, d, pos =>
    match raw? s pos d.records with
    | .error e => .error e
    | .ok none =>
      if d.name.isSome || d.link.isSome || d.records.isSome then
        .error (complaint "members found describing a future member but no future member found")
      else .ok none
    | .ok (some r) =>
      let known := r.header.isStandard || r.header.isExtended
      let describe (before : Option (List UInt8)) (set : List UInt8 → Description) :
          Except IoError (Option Member) :=
        if before.isSome then .error (complaint "two entries describing the same member")
        else match r.read s with
          | .error e => .error e
          | .ok bytes => member? s fuel (set bytes) r.next
      if known && r.header.kind = letter 'L' then describe d.name fun b => { d with name := some b }
      else if known && r.header.kind = letter 'K' then
        describe d.link fun b => { d with link := some b }
      else if known && r.header.kind = letter 'x' then
        describe d.records fun b => { d with records := some b }
      else (r.member s d).map some

end GameInstaller.Archive.Tar
