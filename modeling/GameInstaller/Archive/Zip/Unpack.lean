import GameInstaller.Archive.Zip.Directory
import GameInstaller.Compression.Bzip2
import GameInstaller.Compression.Deflate
import GameInstaller.Compression.Zstd.Frame
import GameInstaller.Disk.Calls

/-! # Unpacking zip archives

Entries are unpacked in their order; permissions are set when all are there.  An entry whose name
leads out of the target directory, or through a link, ends the unpacking. -/

namespace GameInstaller.Archive.Zip

open Disk (Io IoError attempt fail find)

/-- The names that a path leads through; nothing when it starts at the root or climbs too far. -/
def simplified? (p : Path) : Option (List String) :=
  p.components.foldl (fun acc c => match acc, c with
    | none, _ => none
    | _, .root => none
    | some l, .here => some l
    | some [], .up => none
    | some l, .up => some l.dropLast
    | some l, .normal name => some (l ++ [String.ofList name])) (some [])

/-- The names of an entry's place. -/
def Entry.names? (e : Entry) : Option (List String) :=
  if e.name.toList.contains '\x00' then none else simplified? ⟨e.name⟩

/-- Go down a path one name at a time, making directories that are missing but for the last
    name. -/
def prepare (p : Path) : List String → Io Path
  | [] => pure p
  | name :: rest => do
    let p := p.child name
    match (← get).stat .keep p with
    | .ok (.link _) => throw (invalid "Invalid base path")
    | .ok _ => prepare p rest
    | .error e =>
      if e.kind = .notFound then do
        if !rest.isEmpty then Disk.createDirAll p
        prepare p rest
      else throw e

/-- What an entry holds, and the failure that ends it early. -/
def Entry.content (e : Entry) (data : ByteArray) : Except IoError (ByteArray × Option IoError) :=
  if e.encrypted then .error (invalid "Password required to decrypt file")
  else
    let packed := data.extract e.start (e.start + e.packedSize)
    let checked (out : ByteArray) : ByteArray × Option IoError :=
      (out, if (Compression.Crc32.low out).toNat = e.crc then none else some (invalid "Invalid checksum"))
    let ofStream (s : Disk.ByteStream) : ByteArray × Option IoError :=
      match s.failure with
      | some f => (s.joined, some f)
      | none => checked s.joined
    match e.method with
    | 0 => .ok (checked packed)
    | 8 =>
      let r := Compression.Deflate.expand packed 0
      match r.next with
      | .error .corrupt => .ok (r.out, some Compression.Defect.corrupt.failure)
      | _ => .ok (checked r.out)
    | 12 => .ok (ofStream (Compression.Bzip2.read packed))
    | 93 => .ok (ofStream (Compression.Zstd.read packed))
    | _ => .error (invalid "Compression method not supported")

/-- Unpack an entry; the result is where its permissions are to be set. -/
def unpackEntry (data : ByteArray) (dst : Path) (e : Entry) : Io (Option (Path × Nat)) := do
  match e.content data, e.names? with
  | .error f, _ => throw f
  | .ok _, none => throw (invalid "Invalid file path")
  | .ok (content, failure), some names =>
    let p ← prepare dst names
    if e.isLink then
      match failure, Text.strict? content with
      | some f, _ => throw f
      | none, none => throw (invalid "Invalid UTF-8 as symlink target")
      | none, some target => Disk.symlink target p
      pure none
    else if e.isDirectory then
      Disk.createDirAll p
      pure none
    else
      Disk.writeBytes p ByteArray.empty
      Disk.writeBytes p content
      match failure with
      | some f => throw f
      | none => pure (e.mode?.map fun m => (p, m))

/-- Unpack an archive into a directory. -/
def unpack (data : ByteArray) (dst : Path) : Io Unit := do
  let found ← match entries data with
    | .ok found => pure found
    | .error e => throw e
  let r ← find .follow dst
  if r.node.isNone then fail .noEntry
  let base : Path := ⟨"/" ++ "/".intercalate r.location⟩
  let modes ← found.mapM (unpackEntry data base)
  modes.forM fun
    | some (p, mode) => Disk.chmod p (mode % 4096)
    | none => pure ()

end GameInstaller.Archive.Zip
