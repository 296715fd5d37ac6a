import GameInstaller.Disk.Calls
import GameInstaller.Disk.IoError
import GameInstaller.Install.Error

/-! # Operations on trees of files

How failures are classified, and the operations made of several calls. -/

/-! ## Classified filesystem failures

What a filesystem operation reports: a missing path, a refused one and an existing target are told
apart from all other failures, so that a run can tell an advisory outcome from a fatal one. -/

namespace GameInstaller.Disk

/-- A classified failure, with the path it concerns. -/
inductive Fault where
  | notFound (path : Path)
  | permissionDenied (path : Path)
  | alreadyExists (path : Path)
  /-- The archive is of no known format. -/
  | unsupported (path : Path)
  | io (path : Path) (cause : IoError)
  deriving DecidableEq, Repr

namespace Fault

/-- Classify a failure of the system that concerns a path. -/
def ofIo (path : Path) (e : IoError) : Fault :=
  match e.kind with
  | .notFound => .notFound path
  | .permissionDenied => .permissionDenied path
  | .alreadyExists => .alreadyExists path
  | _ => .io path e

/-- The wording of a failure. -/
def message : Fault → String
  | notFound p => p.text ++ " does not exist"
  | permissionDenied p => "permission denied: " ++ p.text
  | alreadyExists p => p.text ++ " already exists"
  | unsupported p => "unsupported archive format: " ++ p.text
  | io p e => p.text ++ ": " ++ e.text

/-- The failure of the step that met it. -/
def kind : Fault → FailureKind
  | notFound _ => .notFound
  | permissionDenied _ => .permissionDenied
  | alreadyExists _ => .alreadyExists
  | unsupported _ => .io
  | io .. => .io

/-- The error of the step that met it. -/
def toError (f : Fault) : ExecutionError := .new f.kind f.message

end Fault

/-! ## Moving and copying

The operations that install steps perform on the disk.  Failures are classified and name the path
that the step's author would look at. -/

/-- An operation on the disk that may fail with a classified failure. -/
abbrev Fs (α : Type) := Call Fault α

/-- A call whose failure concerns a path. -/
def about {α : Type} (p : Path) (x : Io α) : Fs α := do
  match ← attempt x with
  | .ok a => pure a
  | .error e => throw (.ofIo p e)

/-- Copy a file with its permission bits.  The target is emptied before the source is read. -/
def copyFile (src dst : Path) : Io Unit := do
  let s ← find .follow src
  match s.node with
  | none => fail .noEntry
  | some .dir =>
    throw (.custom .invalidInput
      "the source path is neither a regular file nor a symlink to a regular file")
  | some (.link _) => fail .noEntry
  | some (.file _ mode _) =>
    update dst (fun _ => ByteArray.empty) mode
    let content ← readBytes src
    update dst (fun _ => content) mode
    chmod dst mode

/-- Make the parent directory of a path. -/
def makeParent (p : Path) : Fs Unit :=
  match p.parent? with
  | some parent => about parent (createDirAll parent)
  | none => pure ()

/-- Copy a file, or a directory into another, entry by entry.  Every level makes both paths longer,
    so that the length limit of paths bounds the depth. -/
def copyInto : Nat → Path → Path → Fs Unit
  | 0, src, _ => throw (.ofIo src (.system .nameTooLong))
  | depth + 1, src, dst => do
    if (← get).isDir src then
      about dst (createDirAll dst)
      let r ← about src (find .follow src)
      let names := (← get).children r.location
      names.forM fun name => copyInto depth (src.child name) (dst.child name)
    else
      makeParent dst
      about src (copyFile src dst)

/-- Copy a file or a whole tree. -/
def copyRecursive (src dst : Path) : Fs Unit := copyInto pathLimit src dst

/-- Take away a file, or a directory with all that is in it. -/
def removePath (p : Path) : Fs Unit := do
  if (← get).isDir p then about p (removeDirAll p)
  else about p (unlink p)

/-- Move `src` to `dst`; an existing directory `dst` receives it inside.  Across devices it is
    copied and then taken away. -/
def movePath (src dst : Path) : Fs Unit := do
  let d ← get
  if !d.pathExists src then throw (.notFound src)
  let target ← if d.isDir dst then
      match src.fileName? with
      | some name => pure (dst.child name)
      | none => throw (.notFound src)
    else pure dst
  if d.pathExists target then throw (.alreadyExists target)
  makeParent target
  match ← attempt (rename src target) with
  | .ok () => pure ()
  | .error e =>
    if e.kind = .crossesDevices then
      copyRecursive src target
      removePath src
    else throw (.ofIo src e)

/-- Copy `src` into `dst`, merging directories and overwriting files. -/
def copyTree (src dst : Path) : Fs Unit := do
  let d ← get
  if !d.pathExists src then throw (.notFound src)
  let target :=
    if d.isFile src && d.isDir dst then
      match src.fileName? with
      | some name => dst.child name
      | none => dst
    else dst
  copyRecursive src target

/-- Make a directory and its parents; one that is there already is reported. -/
def createDir (p : Path) : Fs Unit := do
  if (← get).pathExists p then throw (.alreadyExists p)
  about p (createDirAll p)

/-- Open a file. -/
def openFile (p : Path) : Fs ByteStream := about p (openStream p)

end GameInstaller.Disk
