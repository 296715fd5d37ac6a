import GameInstaller.Archive.Tar.Member
import GameInstaller.Disk.Calls

/-! # Unpacking tar archives

Members are unpacked in their order, directories last.  A member whose name climbs is left out, and
nothing is written outside the target directory, also not through links that the archive made. -/

namespace GameInstaller.Archive.Tar

open Disk (Io attempt fail find)

/-- The path that a location has. -/
def pathOf (l : Location) : Path := ⟨"/" ++ "/".intercalate l⟩

/-- The path without links in it. -/
def canonical (p : Path) : Io Location := do
  let r ← find .follow p
  if r.node.isSome then pure r.location else fail .noEntry

/-- Fail unless a path leads to something inside a directory. -/
def checkInside (dst p : Path) : Io Unit := do
  let here ← canonical p
  let base ← canonical dst
  if !base.isPrefixOf here then throw (complaint "trying to unpack outside of destination path")

/-- The directories from `p` up that are not there, outermost first. -/
def missing (d : Disk) : Nat → Path → List Path → List Path
  | 0, _, acc => acc
  | fuel + 1, p, acc =>
    match d.stat .keep p with
    | .ok _ => acc
    | .error _ =>
      match p.parent? with
      | some parent => missing d fuel parent (p :: acc)
      | none => p :: acc

/-- Make the directories that lead to a path inside `dst`. -/
def makeParents (dst p : Path) : Io Unit := do
  (missing (← get) (p.text.length + 1) p []).forM fun dir => do
    if let some parent := dir.parent? then checkInside dst parent
    Disk.mkdir dir

/-- Make a directory, if it is not there already. -/
def makeDirectory (p : Path) : Io Unit := do
  match ← attempt (Disk.mkdir p) with
  | .ok () => pure ()
  | .error e =>
    match (← get).stat .keep p with
    | .ok .dir => if e.kind = .alreadyExists then pure () else throw e
    | _ => throw e

/-- Run a call that makes something new; what is in its way is taken away first. -/
def replacing (p : Path) (make : Io Unit) : Io Unit := do
  match ← attempt make with
  | .ok () => pure ()
  | .error e =>
    if e.kind = .alreadyExists then do
      Disk.unlink p
      make
    else throw e

/-- The content that stretches give, and the failure that ends it early. -/
def contentOf (s : Source) : List Stretch → ByteArray → ByteArray × Option Disk.IoError
  | [], out => (out, none)
  | .hole n :: r, out => contentOf s r (out ++ ⟨Array.replicate n 0⟩)
  | .bytes start n :: r, out =>
    let out := out ++ s.data.extract start (start + n)
    if s.data.size < start + n then (out, some (s.beyond "failed to write entire file"))
    else contentOf s r out

/-- Write a member as a file. -/
def writeRegular (s : Source) (m : Member) (p : Path) : Io Unit := do
  replacing p (Disk.createNew p)
  let (content, failure) := contentOf s m.content ByteArray.empty
  Disk.writeBytes p content
  match failure with
  | some e => throw e
  | none =>
    match m.header.mode? with
    | some mode => Disk.chmod p (mode % 512)
    | none => pure ()

/-- Bytes as text. -/
def textOf (bytes : List UInt8) : String := Text.lossy ⟨bytes.toArray⟩

/-- Make a link to what a member names. -/
def makeLink (dst : Path) (m : Member) (p : Path) : Io Unit := do
  match m.link.map textOf with
  | none => throw (complaint "hard link listed but no link name found")
  | some target =>
    if (Path.mk target).components.isEmpty then throw (complaint "symlink destination is empty")
    else if m.header.kind = letter '1' then
      let src := dst.child target
      checkInside dst src
      Disk.hardLink src p
    else replacing p (Disk.symlink target p)

/-- Write what a member is to its place. -/
def writeMember (s : Source) (dst : Path) (m : Member) (p : Path) : Io Unit := do
  let kind := m.header.kind
  if kind = letter '5' then makeDirectory p
  else if kind = letter '1' || kind = letter '2' then makeLink dst m p
  else if [letter 'x', letter 'g', letter 'L', letter 'K'].contains kind then pure ()
  else if !m.header.isStandard && m.name.getLast? = some (letter '/') then makeDirectory p
  else writeRegular s m p

/-- The names on the way to a member, unless they climb. -/
def names? (m : Member) : Option (List String) :=
  (Path.mk (textOf m.name)).components.foldr (fun c acc => match c, acc with
    | .up, _ => none
    | _, none => none
    | .normal name, some r => some (String.ofList name :: r)
    | _, some r => some r) (some [])

/-- Unpack a member into a directory. -/
def unpackMember (s : Source) (dst : Path) (m : Member) : Io Unit := do
  match names? m with
  | none => pure ()
  | some [] => pure ()
  | some names =>
    let p := names.foldl Path.child dst
    match p.parent? with
    | none => pure ()
    | some parent =>
      makeParents dst parent
      checkInside dst parent
      writeMember s dst m p

/-- Unpack all members from a position on, but directories; those are the result. -/
def unpackFrom (s : Source) (dst : Path) : Nat → Nat → List Member → Io (List Member)
  | 0, _, directories => pure directories
  | fuel + 1, pos, directories => do
    match member? s (s.data.size + 2) ⟨none, none, none⟩ pos with
    | .error e => throw e
    | .ok none => pure directories
    | .ok (some m) =>
      if m.header.kind = letter '5' then unpackFrom s dst fuel m.next (m :: directories)
      else do
        unpackMember s dst m
        unpackFrom s dst fuel m.next directories

/-- Whether a name stands before another one, byte by byte, or is the same. -/
def isBefore : List UInt8 → List UInt8 → Bool
  | [], _ => true
  | _ :: _, [] => false
  | a :: r, b :: s => a < b || (a == b && isBefore r s)

/-- Unpack an archive into a directory. -/
def unpack (s : Source) (dst : Path) : Io Unit := do
  let dst ← match ← attempt (canonical dst) with
    | .ok l => pure (pathOf l)
    | .error _ => pure dst
  let directories ← unpackFrom s dst (s.data.size + 2) 0 []
  (directories.reverse.mergeSort fun a b => isBefore b.name a.name).forM (unpackMember s dst)

end GameInstaller.Archive.Tar
