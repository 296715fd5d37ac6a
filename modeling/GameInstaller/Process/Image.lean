import GameInstaller.Disk.Resolve
import GameInstaller.Environment
import GameInstaller.Text.Utf8

/-! # Finding and loading programs

The search path that a bare name is looked up in, and what the system does with the file found. -/

/-! ## The search path

The variable `PATH` lists directories, separated by colons; an empty entry is the working
directory.

* `Environment.candidates`   the paths that a bare name of a program stands for
* `Disk.findExecutable`      the first of them that is a file -/

namespace GameInstaller

open Disk (Errno)

/-- The variable that lists where programs are. -/
def searchVariable : String := "PATH"

/-- The directories of a search path. -/
def searchDirs (value : String) : List Path :=
  (Text.pieces ':' value.toList).map fun cs => ⟨String.ofList cs⟩

/-- Whether a text names a program by its path. -/
def namesPath (text : String) : Bool := text.toList.contains '/'

/-- The paths that the bare name of a program stands for; nothing without a search path. -/
def Environment.candidates (env : Environment) (name : String) : Option (List Path) :=
  (env.get? searchVariable).map fun value => (searchDirs value).map fun dir => dir.child name

/-- Where a program is: the path itself when it is one, else the first file of that name in the
    directories of the search path. -/
def Disk.findExecutable (d : Disk) (env : Environment) (name : String) : Option Path :=
  if namesPath name then (if d.isFile ⟨name⟩ then some ⟨name⟩ else none)
  else ((env.candidates name).getD []).find? d.isFile

/-! ## Program files

What the system does with a file that is to be run.  A binary is one of the tools of the system; a
script starts with `#!` and the line of its interpreter, which is run in its place with the path of
the script as argument.

* `Image.ofContent`    what a file holds
* `Disk.load`          the tool that a path leads to, and its arguments
* `Disk.loadProgram`   the same for a program that may be a bare name -/

/-- What a file that can be run holds. -/
inductive Image where
  /-- A binary, which is a tool of the system. -/
  | tool (name : String)
  | script (interpreter : String) (argument : Option String)
  deriving DecidableEq, Repr

/-- A tool with its arguments, the name it was called by first. -/
structure Loaded where
  tool : String
  argv : List String
  deriving DecidableEq, Repr

namespace Image

/-- What a binary starts with. -/
def binaryMark : List UInt8 := [0x7F, 0x45, 0x4C, 0x46]

/-- What a script starts with. -/
def scriptMark : List UInt8 := [0x23, 0x21]

/-- The content of the binary of a tool. -/
def binary (name : String) : ByteArray := ⟨binaryMark.toArray⟩ ++ name.toUTF8

/-- How many bytes of a script are looked at. -/
def headSize : Nat := 256

/-- Whether a byte is a space or a tab. -/
def isGap (b : UInt8) : Bool := b == 0x20 || b == 0x09

/-- Whether a byte ends the name of an interpreter. -/
def endsName (b : UInt8) : Bool := isGap b || b == 0

/-- Bytes as text. -/
def textOf (bytes : List UInt8) : String := Text.lossy ⟨bytes.toArray⟩

/-- Bytes without the gaps at their end. -/
def dropEndGaps (bytes : List UInt8) : List UInt8 := (bytes.reverse.dropWhile isGap).reverse

/-- The interpreter of a script whose first line has these bytes after the mark. -/
def ofLine (line : List UInt8) : Except Errno Image :=
  match line.dropWhile isGap with
  | [] => .error .execFormat
  | bytes =>
    let name := bytes.takeWhile fun b => !endsName b
    let rest := bytes.drop name.length
    let argument := match rest with
      | [] => []
      | b :: r => if isGap b then (r.dropWhile isGap).takeWhile (· != 0) else []
    .ok (.script (textOf name) (if argument.isEmpty then none else some (textOf argument)))

/-- The first line of a script after the mark, gaps at its end dropped.  One that does not fit into
    the head must at least show the end of the interpreter's name. -/
def firstLine (head : List UInt8) (whole : Bool) : Except Errno (List UInt8) :=
  let line := head.takeWhile (· != 0x0A)
  if line.length < head.length then .ok (dropEndGaps line)
  else if whole then .ok (line ++ [0])
  else if ((line.dropWhile isGap).any endsName) then .ok (dropEndGaps line.dropLast)
  else .error .execFormat

/-- What the content of a file is. -/
def ofContent (content : ByteArray) : Except Errno Image :=
  let head := (content.extract 0 headSize).toList
  if binaryMark.isPrefixOf head then
    .ok (.tool (textOf (content.toList.drop binaryMark.length)))
  else if scriptMark.isPrefixOf head then
    match firstLine (head.drop scriptMark.length) (content.size < headSize) with
    | .ok line => ofLine line
    | .error e => .error e
  else .error .execFormat

end Image

namespace Disk

/-- The system's number of a failure; only a name with a zero character has none. -/
def errnoOf (e : IoError) : Errno :=
  match e with
  | .system n => n
  | .custom .. => .noEntry

/-- Whether any of the execute bits is set. -/
def mayExecute (mode : Nat) : Bool := mode / 64 % 2 = 1 || mode / 8 % 2 = 1 || mode % 2 = 1

/-- What the file at a path holds that is to be run. -/
def image (d : Disk) (p : Path) : Except Errno Image :=
  match d.stat .follow p with
  | .error e => .error (errnoOf e)
  | .ok (.file content mode _) => if mayExecute mode then Image.ofContent content else .error .permission
  | .ok _ => .error .permission

/-- How many interpreters may be scripts themselves. -/
def maxInterpreters : Nat := 5

/-- The tool that a path leads to, by way of at most `depth` interpreters. -/
def loadWith (d : Disk) : Nat → String → List String → Except Errno Loaded
  | depth, path, argv =>
    match d.image ⟨path⟩ with
    | .error e => .error e
    | .ok (.tool name) => .ok ⟨name, argv⟩
    | .ok (.script interpreter argument) =>
      match depth with
      | 0 => .error .loop
      | depth + 1 =>
        d.loadWith depth interpreter (interpreter :: argument.toList ++ path :: argv.drop 1)

/-- The tool that a path leads to.  `argv` starts with the name that it is called by. -/
def load (d : Disk) (path : String) (argv : List String) : Except Errno Loaded :=
  d.loadWith maxInterpreters path argv

/-- Where programs are looked for when there is no search path. -/
def defaultSearch : String := "/bin:/usr/bin"

/-- The tool that runs scripts, and where it is. -/
def shellTool : String := "sh"

/-- Where the shell is. -/
def shellPath : String := "/bin/sh"

/-- The tool that a path leads to; with `asScript` a file of no known format is left to the
    shell. -/
def loadAt (d : Disk) (asScript : Bool) (path : String) (argv : List String) :
    Except Errno Loaded :=
  match d.load path argv with
  | .error .execFormat =>
    if asScript then .ok ⟨shellTool, shellPath :: path :: argv.drop 1⟩ else .error .execFormat
  | other => other

/-- Try paths in turn.  A path that leads nowhere is passed over, and so is one that must not be
    run, which is what is reported when there is no other. -/
def firstLoaded (d : Disk) (asScript : Bool) (argv : List String) (refused : Bool) :
    List Path → Except Errno Loaded
  | [] => .error (if refused then .permission else .noEntry)
  | p :: r =>
    match d.loadAt asScript p.text argv with
    | .error .permission => d.firstLoaded asScript argv true r
    | .error .noEntry => d.firstLoaded asScript argv refused r
    | .error .notDirectory => d.firstLoaded asScript argv refused r
    | other => other

/-- The tool that a program leads to: a path, or a bare name to be searched for. -/
def loadProgram (d : Disk) (asScript : Bool) (env : Environment) (program : String)
    (args : List String) : Except Errno Loaded :=
  if program.isEmpty then .error .noEntry
  else if namesPath program then d.loadAt asScript program (program :: args)
  else
    d.firstLoaded asScript (program :: args) false
      ((searchDirs ((env.get? searchVariable).getD defaultSearch)).map fun dir => dir.child program)

end Disk

end GameInstaller
