import GameInstaller.Path

/-! # The disk

A tree of directories, files and symbolic links, as a list of entries by location, oldest first.
The root directory is always there and has no entry.

* `find?`     the node at a location
* `set`       put a node at a location
* `erase`     take away what is at a location
* `children`  the names in a directory, oldest first -/

namespace GameInstaller

/-- Where an entry lies: the names from the root down to it. -/
abbrev Location := List String

namespace Disk

/-- What may lie at a location. -/
inductive Node where
  | dir
  /-- A file with its permission bits.  Files with the same link number are one file under several
      names. -/
  | file (content : ByteArray) (mode : Nat) (shared : Option Nat)
  /-- A symbolic link. -/
  | link (target : String)
  deriving Inhabited

namespace Node

instance : DecidableEq Node
  | .dir, .dir => isTrue rfl
  | .link s, .link t => decidable_of_iff (s = t) (by simp)
  | .file ⟨c⟩ m s, .file ⟨c'⟩ m' s' =>
    decidable_of_iff (c = c' ∧ m = m' ∧ s = s') (by simp)
  | .dir, .link _ => isFalse nofun
  | .dir, .file .. => isFalse nofun
  | .link _, .dir => isFalse nofun
  | .link _, .file .. => isFalse nofun
  | .file .., .dir => isFalse nofun
  | .file .., .link _ => isFalse nofun

def isDir : Node → Bool
  | dir => true
  | _ => false

def isFile : Node → Bool
  | file .. => true
  | _ => false

def isLink : Node → Bool
  | link _ => true
  | _ => false

end Node

end Disk

/-- A disk, and the directory that relative paths start from. -/
structure Disk where
  entries : List (Location × Disk.Node)
  working : Location
  /-- Whether every renaming is reported to cross devices. -/
  split : Bool
  deriving Inhabited

namespace Disk

/-- The node among entries at a location. -/
def lookup (l : Location) : List (Location × Node) → Option Node
  | [] => none
  | (k, n) :: r => if k = l then some n else lookup l r

/-- The node at a location. -/
def find? (d : Disk) (l : Location) : Option Node :=
  if l = [] then some .dir else lookup l d.entries

/-- Entries with a node put in place of the one at its location, or added at the end. -/
def put (l : Location) (n : Node) : List (Location × Node) → List (Location × Node)
  | [] => [(l, n)]
  | (k, m) :: r => if k = l then (l, n) :: r else (k, m) :: put l n r

/-- Put a node at a location. -/
def set (d : Disk) (l : Location) (n : Node) : Disk := { d with entries := put l n d.entries }

/-- Take away what is at a location. -/
def erase (d : Disk) (l : Location) : Disk :=
  { d with entries := d.entries.filter fun (k, _) => k ≠ l }

/-- Take away what is at a location and everything under it. -/
def eraseTree (d : Disk) (l : Location) : Disk :=
  { d with entries := d.entries.filter fun (k, _) => !l.isPrefixOf k }

/-- Take away everything under a location. -/
def eraseUnder (d : Disk) (l : Location) : Disk :=
  { d with entries := d.entries.filter fun (k, _) => !(l.isPrefixOf k && k ≠ l) }

/-- The name that a location has in a directory. -/
def nameIn (dir : Location) (l : Location) : Option String :=
  match l.getLast? with
  | some n => if l.dropLast = dir then some n else none
  | none => none

/-- The names in a directory, oldest first. -/
def children (d : Disk) (dir : Location) : List String :=
  d.entries.filterMap fun (k, _) => nameIn dir k

/-- Give everything at and under a location another place. -/
def relocate (d : Disk) (src dst : Location) : Disk :=
  { d with entries := d.entries.map fun (k, n) =>
      if src.isPrefixOf k then (dst ++ k.drop src.length, n) else (k, n) }

/-- Give a file's content to all names of that file. -/
def setContent (d : Disk) (l : Location) (content : ByteArray) (mode : Nat) (shared : Option Nat) : Disk :=
  match shared with
  | none => d.set l (.file content mode none)
  | some id =>
    { d with entries := d.entries.map fun (k, n) =>
        match n with
        | .file _ _ (some i) => if i = id then (k, .file content mode (some id)) else (k, n)
        | n => (k, n) }

/-- A link number that no file has. -/
def freshId (d : Disk) : Nat :=
  d.entries.foldl (fun n (_, node) => match node with
    | .file _ _ (some i) => max n (i + 1)
    | _ => n) 0

/-- The location that a path without links and dots names. -/
def locationOf (p : Path) : Location :=
  p.components.filterMap fun c => match c with
    | .normal name => some (String.ofList name)
    | _ => none

end Disk

end GameInstaller
