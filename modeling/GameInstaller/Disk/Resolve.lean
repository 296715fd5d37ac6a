import GameInstaller.Disk.Basic
import GameInstaller.Disk.IoError

/-! # Resolving paths

How a path leads to a location: names are followed from the root or the working directory, `..`
goes up, and a symbolic link continues at its target.  At most 40 links are followed, a name has at
most 255 bytes and a path at most 4095. -/

namespace GameInstaller.Disk

/-- What happens to a link at the end of a path. -/
inductive Final where
  /-- It is followed. -/
  | follow
  /-- It is itself what the path names, unless a slash stands behind it. -/
  | keep
  /-- It is itself what the path names, always; a slash behind a file is the caller's matter. -/
  | entry
  deriving DecidableEq, Repr

/-- Where a path leads. -/
structure Resolved where
  location : Location
  /-- What is there; when nothing is, at least the directory it would be in is there. -/
  node : Option Node
  /-- Whether a slash stands behind the last name. -/
  slash : Bool
  /-- Whether the path ends in `.` or `..` or is the root. -/
  dots : Bool

/-- The names of a path, empty ones left out. -/
def segments (text : String) : List String :=
  ((Text.pieces '/' text.toList).filter fun s => !s.isEmpty).map String.ofList

/-- Whether a text ends in a slash. -/
def endsInSlash (text : String) : Bool := text.toList.getLast? == some '/'

/-- Whether a text starts with a slash. -/
def startsInSlash (text : String) : Bool := text.toList.head? == some '/'

/-- The most bytes of a name. -/
def maxName : Nat := 255

/-- One more than the most bytes of a path. -/
def pathLimit : Nat := 4096

/-- How many links are followed on one path. -/
def maxLinks : Nat := 40

/-- Follow names from the directory `cur`; `links` is how many more links may be followed. -/
def walk (d : Disk) (final : Final) (links : Nat) (cur : Location) (slash : Bool)
    (names : List String) : Except Errno Resolved :=
  match names with
  | [] => .ok ⟨cur, some .dir, slash, true⟩
  | name :: rest =>
    if name = "." then walk d final links cur slash rest
    else if name = ".." then walk d final links cur.dropLast slash rest
    else if maxName < name.utf8ByteSize then .error .nameTooLong
    else
      let here := cur ++ [name]
      match d.find? here with
      | none => if rest.isEmpty then .ok ⟨here, none, slash, false⟩ else .error .noEntry
      | some .dir =>
        if rest.isEmpty then .ok ⟨here, some .dir, slash, false⟩
        else walk d final links here slash rest
      | some (.file content mode shared) =>
        if rest.isEmpty && (!slash || final = .entry) then
          .ok ⟨here, some (.file content mode shared), slash, false⟩
        else .error .notDirectory
      | some (.link target) =>
        if rest.isEmpty && (final = .entry || (final = .keep && !slash)) then
          .ok ⟨here, some (.link target), slash, false⟩
        else match links with
          | 0 => .error .loop
          | links + 1 =>
            walk d final links (if startsInSlash target then [] else cur)
              (slash || (rest.isEmpty && endsInSlash target)) (segments target ++ rest)
termination_by (links, names.length)

/-- The failure for a path with a zero character in it. -/
def nulInName : IoError := .custom .invalidInput "file name contained an unexpected NUL byte"

/-- Where a path leads from the working directory. -/
def resolve (d : Disk) (final : Final) (p : Path) : Except IoError Resolved :=
  if p.text.toList.contains '\x00' then .error nulInName
  else if p.text.isEmpty then .error (.system .noEntry)
  else if pathLimit ≤ p.text.utf8ByteSize then .error (.system .nameTooLong)
  else
    (d.walk final maxLinks (if p.isAbsolute then [] else d.working) (endsInSlash p.text)
      (segments p.text)).mapError .system

/-- The node that a path leads to. -/
def stat (d : Disk) (final : Final) (p : Path) : Except IoError Node :=
  match d.resolve final p with
  | .error e => .error e
  | .ok r =>
    match r.node with
    | some n => .ok n
    | none => .error (.system .noEntry)

/-- Whether a path leads to anything. -/
def pathExists (d : Disk) (p : Path) : Bool :=
  match d.stat .follow p with
  | .ok _ => true
  | .error _ => false

/-- Whether a path leads to a directory. -/
def isDir (d : Disk) (p : Path) : Bool :=
  match d.stat .follow p with
  | .ok n => n.isDir
  | .error _ => false

/-- Whether a path leads to a file. -/
def isFile (d : Disk) (p : Path) : Bool :=
  match d.stat .follow p with
  | .ok n => n.isFile
  | .error _ => false

end GameInstaller.Disk
