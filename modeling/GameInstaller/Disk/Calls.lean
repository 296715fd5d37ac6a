import GameInstaller.Disk.IoError
import GameInstaller.Disk.Resolve
import GameInstaller.Text.Utf8

/-! # Calls on the disk

The calls that read and change a disk, each of which either does its whole work or fails and leaves
the disk as it was; and `createDirAll` and `removeAll`, which are made of several. -/

namespace GameInstaller.Disk

/-- A call on a disk that may fail; what it did before failing stays done. -/
abbrev Call (ε α : Type) := ExceptT ε (StateM Disk) α

/-- A call that fails with a failure of the system. -/
abbrev Io (α : Type) := Call IoError α

/-- The outcome of a call, as a value. -/
def attempt {ε ε' α : Type} (x : Call ε α) : Call ε' (Except ε α) :=
  ExceptT.mk do
    let r ← ExceptT.run x
    pure (.ok r)

/-- Permission bits of a new file. -/
def newFileMode : Nat := 0o644

/-- Fail with a system error. -/
def fail {α : Type} (e : Errno) : Io α := throw (.system e)

/-- Where a path leads on the disk as it is now. -/
def find (final : Final) (p : Path) : Io Resolved := do
  match (← get).resolve final p with
  | .ok r => pure r
  | .error e => throw e

/-- Make a directory. -/
def mkdir (p : Path) : Io Unit := do
  let r ← find .entry p
  if r.node.isSome then fail .fileExists
  else modify fun d => d.set r.location .dir

/-- Open a file for reading.  A directory can be opened too, but not read. -/
def openStream (p : Path) : Io ByteStream := do
  let r ← find .follow p
  match r.node with
  | some (.file content _ _) => pure ⟨if content.isEmpty then [] else [content], none⟩
  | some _ => pure ⟨[], some (.system .isDirectory)⟩
  | none => fail .noEntry

/-- The content of a file. -/
def readBytes (p : Path) : Io ByteArray := do
  match (← openStream p).readAll with
  | .ok content => pure content
  | .error e => throw e

/-- The content of a file as text. -/
def readText (p : Path) : Io String := do
  let content ← readBytes p
  match Text.strict? content with
  | some s => pure s
  | none => throw (.custom .invalidData "stream did not contain valid UTF-8")

/-- Change the content of a file, which is made when it is not there. -/
def update (p : Path) (change : ByteArray → ByteArray) (mode : Nat) : Io Unit := do
  let r ← find .follow p
  match r.node with
  | some (.file content mode shared) =>
    modify fun d => d.setContent r.location (change content) mode shared
  | some _ => fail .isDirectory
  | none =>
    if r.slash then fail .isDirectory
    else modify fun d => d.set r.location (.file (change ByteArray.empty) mode none)

/-- Give a file this content. -/
def writeBytes (p : Path) (content : ByteArray) : Io Unit := update p (fun _ => content) newFileMode

/-- Add to the end of a file. -/
def appendBytes (p : Path) (content : ByteArray) : Io Unit := update p (· ++ content) newFileMode

/-- Set the permission bits of a file; those of a directory are not kept. -/
def chmod (p : Path) (mode : Nat) : Io Unit := do
  let r ← find .follow p
  match r.node with
  | some (.file content _ shared) => modify fun d => d.setContent r.location content mode shared
  | some _ => pure ()
  | none => fail .noEntry

/-- Make a file that must not be there yet. -/
def createNew (p : Path) : Io Unit := do
  let r ← find .entry p
  if r.node.isSome then fail .fileExists
  else if r.slash then fail .isDirectory
  else modify fun d => d.set r.location (.file ByteArray.empty newFileMode none)

/-- Make a symbolic link at `p`. -/
def symlink (target : String) (p : Path) : Io Unit := do
  if target.toList.contains '\x00' then throw nulInName
  if target.isEmpty then fail .noEntry
  if pathLimit ≤ target.utf8ByteSize then fail .nameTooLong
  let r ← find .entry p
  if r.node.isSome then fail .fileExists
  else if r.slash then fail .noEntry
  else modify fun d => d.set r.location (.link target)

/-- Give the file at `src` a second name `dst`. -/
def hardLink (src dst : Path) : Io Unit := do
  let s ← find .keep src
  let t ← find .entry dst
  match s.node with
  | none => fail .noEntry
  | some n =>
    if t.node.isSome then fail .fileExists
    else if t.slash then fail .noEntry
    else match n with
      | .dir => fail .permission
      | .link target => modify fun d => d.set t.location (.link target)
      | .file content mode shared =>
        modify fun d =>
          let id := shared.getD d.freshId
          (d.set s.location (.file content mode (some id))).set t.location (.file content mode (some id))

/-- Take away a name that is no directory. -/
def unlink (p : Path) : Io Unit := do
  let r ← find .entry p
  match r.node with
  | none => fail .noEntry
  | some .dir => fail .isDirectory
  | some _ => if r.slash then fail .notDirectory else modify fun d => d.erase r.location

/-- Take away an empty directory. -/
def rmdir (p : Path) : Io Unit := do
  let r ← find .entry p
  match r.node with
  | none => fail .noEntry
  | some .dir =>
    if r.location.isEmpty then fail .busy
    else if r.dots then fail .invalid
    else if !((← get).children r.location).isEmpty then fail .notEmpty
    else modify fun d => d.erase r.location
  | some _ => fail .notDirectory

/-- Whether two nodes are the same file under two names. -/
def sameFile : Node → Node → Bool
  | .file _ _ (some i), .file _ _ (some j) => i = j
  | _, _ => false

/-- Give what is at `src` the name `dst`, in place of what may be there.  Only a directory takes
    the place of a directory, and only of an empty one. -/
def rename (src dst : Path) : Io Unit := do
  if (← get).split then fail .crossDevice
  let s ← find .entry src
  let t ← find .entry dst
  if s.dots || t.dots then fail .busy
  match s.node with
  | none => fail .noEntry
  | some n =>
    if !n.isDir && (s.slash || t.slash) then fail .notDirectory
    else if s.location.isPrefixOf t.location && s.location ≠ t.location then fail .invalid
    else if t.location.isPrefixOf s.location && s.location ≠ t.location then fail .notEmpty
    else if s.location = t.location then pure ()
    else match t.node with
      | none => modify fun d => d.relocate s.location t.location
      | some m =>
        if sameFile n m then pure ()
        else if n.isDir && !m.isDir then fail .notDirectory
        else if !n.isDir && m.isDir then fail .isDirectory
        else if m.isDir && !((← get).children t.location).isEmpty then fail .notEmpty
        else modify fun d => (d.erase t.location).relocate s.location t.location

/-- Whether a path has no parent of its own to create: it is empty, or a root. -/
def isTop (p : Path) : Bool := p.components.isEmpty || p.parent?.isNone

/-- Whether a call failed because its target is already there as a directory. -/
def dirThere (p : Path) (e : IoError) : Io Bool := do
  pure (e.kind = .alreadyExists && (← get).isDir p)

/-- Make the nearest directory above that can be made; the result are the ones still to make,
    outermost first. -/
def climb : Nat → Path → List Path → Io (List Path)
  | 0, _, todo => pure todo
  | fuel + 1, p, todo => do
    if isTop p then pure todo
    else
      match ← attempt (mkdir p) with
      | .ok () => pure todo
      | .error e =>
        if e.kind = .notFound then
          match p.parent? with
          | some parent => climb fuel parent (p :: todo)
          | none => pure (p :: todo)
        else if ← dirThere p e then pure todo
        else throw e

/-- Make directories one inside the other; one that is there already is fine. -/
def mkdirs : List Path → Io Unit
  | [] => pure ()
  | p :: r => do
    match ← attempt (mkdir p) with
    | .ok () => mkdirs r
    | .error e => if ← dirThere p e then mkdirs r else throw e

/-- Make a directory and the ones above it that are missing. -/
def createDirAll (p : Path) : Io Unit := do
  if isTop p then pure ()
  else mkdirs (← climb (p.text.length + 1) p [])

/-- Take away a directory and all that is in it; of a link to one, only the link. -/
def removeDirAll (p : Path) : Io Unit := do
  let r ← find .keep p
  match r.node with
  | none => fail .noEntry
  | some (.link _) => unlink p
  | some (.file ..) => fail .notDirectory
  | some .dir =>
    modify fun d => d.eraseUnder r.location
    rmdir p

/-! ## Replacing files

A file is replaced by writing its new content beside it and renaming that file over it, so that the
old content stays whole until the new one is. -/

/-- A failure of the system with the path it concerns. -/
structure PathError where
  path : Path
  cause : IoError

/-- A call whose failure names the path given here. -/
def naming {α : Type} (p : Path) (x : Io α) : Call PathError α := do
  match ← attempt x with
  | .ok a => pure a
  | .error e => throw ⟨p, e⟩

/-- Replace the file at `p` by way of a file with the extension `ext` beside it, making missing
    parent directories. -/
def replaceFile (p : Path) (ext : String) (content : ByteArray) : Call PathError Unit := do
  if let some parent := p.parent? then naming parent (createDirAll parent)
  let beside := p.withExtension ext
  naming beside (writeBytes beside content)
  naming p (rename beside p)

end GameInstaller.Disk
