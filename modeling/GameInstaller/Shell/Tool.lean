import GameInstaller.Shell.Builtin

/-! # Tools

The programs of the system that work on files and print. -/

namespace GameInstaller.Shell

open Disk (IoError)

/-- The wording of a failure without its number. -/
def failureText : IoError → String
  | .system e => e.wording
  | .custom _ text => text

/-- Do something for each of some operands; the status is 1 if it fails for any. -/
def forEachOperand (operands : List String) (act : String → Eval Nat) : Eval Nat :=
  operands.foldlM (fun status x => do pure (max status (← act x))) 0

/-- A call on the disk whose failure is reported. -/
def reporting (io : Streams) (text : String) (x : Disk.Io Unit) : Eval Nat := do
  match ← onDisk x with
  | .ok () => pure 0
  | .error e =>
    say io.complaint (text ++ ": " ++ failureText e ++ "\n")
    pure 1

/-- Options and operands. -/
def splitOptions (args : List String) : List Char × List String :=
  let options := args.filter fun a => a.startsWith "-" && a.length > 1
  ((options.flatMap fun a => a.toList.drop 1),
    args.filter fun a => !(a.startsWith "-" && a.length > 1))

/-- The name at the end of a path. -/
def baseName (p : String) : String := ((Path.mk p).fileName?).getD p

/-- Where a file goes that is copied or moved: into the target when that is a directory. -/
def placeFor (src dst : String) : Eval Path := do
  if (← get).disk.isDir ⟨dst⟩ then pure ((Path.mk dst).child (baseName src)) else pure ⟨dst⟩

/-- Copy a file or, as deep as `depth`, a tree. -/
def copyNode : Nat → Path → Path → Disk.Io Unit
  | 0, _, _ => Disk.fail .nameTooLong
  | depth + 1, src, dst => do
    let r ← Disk.find .follow src
    match r.node with
    | none => Disk.fail .noEntry
    | some .dir =>
      Disk.createDirAll dst
      ((← get).children r.location).forM fun n => copyNode depth (src.child n) (dst.child n)
    | some _ =>
      let content ← Disk.readBytes src
      let mode := match r.node with
        | some (.file _ mode _) => mode
        | _ => Disk.newFileMode
      Disk.update dst (fun _ => content) mode

/-- Take away a file or a tree. -/
def removeNode (p : Path) : Disk.Io Unit := do
  let r ← Disk.find .keep p
  match r.node with
  | some .dir => Disk.removeDirAll p
  | _ => Disk.unlink p

/-- List names. -/
def listNames (io : Streams) (args : List String) : Eval Nat := do
  let (options, operands) := splitOptions args
  let shown (n : String) : Bool := options.contains 'a' || options.contains 'A' || !n.startsWith "."
  let operands := if operands.isEmpty then ["."] else operands
  forEachOperand operands fun p => do
    let d := (← get).disk
    match d.resolve .follow ⟨p⟩ with
    | .ok ⟨l, some .dir, _, _⟩ =>
      let names := ((d.children l).filter shown).mergeSort fun a b => a ≤ b
      let names := if options.contains 'a' then "." :: ".." :: names else names
      say io.output (String.join (names.map (· ++ "\n")))
      pure 0
    | .ok ⟨_, some _, _, _⟩ =>
      say io.output (p ++ "\n")
      pure 0
    | .ok ⟨_, none, _, _⟩ =>
      say io.complaint ("ls: cannot access '" ++ p ++ "': No such file or directory\n")
      pure 2
    | .error e =>
      say io.complaint ("ls: cannot access '" ++ p ++ "': " ++ failureText e ++ "\n")
      pure 2

/-- Write the contents of files, or what is left to read. -/
def concatenate (io : Streams) (operands : List String) : Eval Nat := do
  let operands := if operands.isEmpty then ["-"] else operands
  forEachOperand operands fun p => do
    if p = "-" then
      let s ← get
      set { s with input := [] }
      writeTo io.output ⟨s.input.toArray⟩
      pure 0
    else
      match ← onDisk (Disk.readBytes ⟨p⟩) with
      | .ok content =>
        writeTo io.output content
        pure 0
      | .error e =>
        say io.complaint ("cat: " ++ p ++ ": " ++ failureText e ++ "\n")
        pure 1

/-- The bytes up to the end of the given number of lines. -/
def firstLines : Nat → List UInt8 → List UInt8
  | 0, _ => []
  | n + 1, bytes =>
    let line := bytes.takeWhile (· != 0x0A)
    match bytes.drop line.length with
    | [] => line
    | b :: r => line ++ b :: firstLines n r

/-- Write the beginnings of files, or of what is left to read. -/
def beginnings (io : Streams) (args : List String) : Eval Nat := do
  let (cut, operands) : (List UInt8 → List UInt8) × List String := match args with
    | "-c" :: n :: r => (List.take ((n.toNat?).getD 0), r)
    | "-n" :: n :: r => (firstLines ((n.toNat?).getD 0), r)
    | a :: r =>
      if a.startsWith "-c" then (List.take (((a.drop 2).toString.toNat?).getD 0), r)
      else if a.startsWith "-n" then (firstLines (((a.drop 2).toString.toNat?).getD 0), r)
      else if a.startsWith "-" then (firstLines (((a.drop 1).toString.toNat?).getD 10), r)
      else (firstLines 10, a :: r)
    | [] => (firstLines 10, [])
  if operands.isEmpty then
    let s ← get
    set { s with input := [] }
    writeTo io.output ⟨(cut s.input).toArray⟩
    pure 0
  else
    forEachOperand operands fun p => do
      match ← onDisk (Disk.readBytes ⟨p⟩) with
      | .ok content =>
        writeTo io.output ⟨(cut content.toList).toArray⟩
        pure 0
      | .error e =>
        say io.complaint ("head: cannot open '" ++ p ++ "' for reading: " ++ failureText e ++ "\n")
        pure 1

/-- Write the numbers between two numbers, one a line. -/
def numbers (io : Streams) (args : List String) : Eval Nat := do
  let (first, last) := match args.map (·.toNat?) with
    | [some n] => (1, n)
    | [some m, some n] => (m, n)
    | _ => (1, 0)
  let shown := (List.range (last + 1 - first)).map fun k => toString (first + k) ++ "\n"
  say io.output (String.join shown)
  pure 0

/-- The permission bits that a mode gives to a file that has some. -/
def newMode (mode : String) (old : Nat) : Option Nat :=
  if mode.toList.all fun c => '0' ≤ c && c ≤ '7' then some (octal 4 0 mode.toList).1
  else if ["+x", "a+x"].contains mode then some (old ||| 0o111)
  else if mode = "u+x" then some (old ||| 0o100)
  else if ["-x", "a-x"].contains mode then some (old &&& 0o666)
  else none

/-- Change the permission bits of a file. -/
def changeMode (io : Streams) (mode p : String) : Eval Nat := do
  match (← get).disk.stat .follow ⟨p⟩ with
  | .ok (.file _ old _) =>
    match newMode mode old with
    | some m => reporting io ("chmod: changing permissions of '" ++ p ++ "'") (Disk.chmod ⟨p⟩ m)
    | none =>
      say io.complaint ("chmod: invalid mode: '" ++ mode ++ "'\n")
      pure 1
  | .ok _ => pure 0
  | .error e =>
    say io.complaint ("chmod: cannot access '" ++ p ++ "': " ++ failureText e ++ "\n")
    pure 1

/-- Copy or move operands to the last of them. -/
def transfer (io : Streams) (tool : String) (operands : List String)
    (act : String → Path → Eval Nat) : Eval Nat := do
  match operands.getLast?, operands.dropLast with
  | some dst, s :: r => forEachOperand (s :: r) fun src => do act src (← placeFor src dst)
  | _, _ =>
    say io.complaint (tool ++ ": missing file operand\n")
    pure 1

/-- The programs of the system that are no shell. -/
def toolNames : List String :=
  ["basename", "cat", "chmod", "cp", "dirname", "echo", "env", "false", "head", "ln", "ls", "mkdir",
   "mv", "printf", "pwd", "rm", "rmdir", "seq", "sleep", "test", "[", "touch", "true"]

/-- Run a tool. -/
def runTool (io : Streams) (tool : String) (args : List String) : Eval Nat := do
  let (options, operands) := splitOptions args
  match tool with
  | "true" => pure 0
  | "false" => pure 1
  | "sleep" => pure 0
  | "echo" => echo io args
  | "printf" => printf io args
  | "test" => testStatus args
  | "[" => testStatus args.dropLast
  | "pwd" =>
    say io.output (workingPath (← get).disk ++ "\n")
    pure 0
  | "env" =>
    say io.output (String.join ((← get).environment.vars.map fun (k, v) => k ++ "=" ++ v ++ "\n"))
    pure 0
  | "basename" =>
    say io.output (baseName (operands.headD "") ++ "\n")
    pure 0
  | "dirname" =>
    let dir := ((Path.mk (operands.headD "")).parent?).elim "." (·.text)
    say io.output ((if dir.isEmpty then "." else dir) ++ "\n")
    pure 0
  | "head" => beginnings io args
  | "seq" => numbers io args
  | "ls" => listNames io args
  | "cat" => concatenate io operands
  | "mkdir" =>
    forEachOperand operands fun p =>
      reporting io ("mkdir: cannot create directory '" ++ p ++ "'")
        (if options.contains 'p' then Disk.createDirAll ⟨p⟩ else Disk.mkdir ⟨p⟩)
  | "rmdir" =>
    forEachOperand operands fun p =>
      reporting io ("rmdir: failed to remove '" ++ p ++ "'") (Disk.rmdir ⟨p⟩)
  | "touch" =>
    forEachOperand operands fun p => do
      if (← get).disk.pathExists ⟨p⟩ then pure 0
      else reporting io ("touch: cannot touch '" ++ p ++ "'") (Disk.appendBytes ⟨p⟩ ByteArray.empty)
  | "rm" =>
    forEachOperand operands fun p => do
      let there := match (← get).disk.stat .keep ⟨p⟩ with
        | .ok _ => true
        | .error _ => false
      if options.contains 'f' && !there then pure 0
      else
        reporting io ("rm: cannot remove '" ++ p ++ "'")
          (if options.contains 'r' || options.contains 'R' then removeNode ⟨p⟩ else Disk.unlink ⟨p⟩)
  | "cp" =>
    transfer io tool operands fun src dst => do
      if (← get).disk.isDir ⟨src⟩ && !(options.any fun c => ['r', 'R', 'a'].contains c) then
        say io.complaint ("cp: -r not specified; omitting directory '" ++ src ++ "'\n")
        pure 1
      else reporting io ("cp: cannot stat '" ++ src ++ "'") (copyNode Disk.pathLimit ⟨src⟩ dst)
  | "mv" =>
    transfer io tool operands fun src dst =>
      reporting io ("mv: cannot stat '" ++ src ++ "'") (Disk.rename ⟨src⟩ dst)
  | "ln" =>
    transfer io tool operands fun src dst =>
      reporting io ("ln: failed to create link '" ++ dst.text ++ "'")
        (if options.contains 's' then Disk.symlink src dst else Disk.hardLink ⟨src⟩ dst)
  | "chmod" =>
    match args with
    | mode :: paths => forEachOperand paths (changeMode io mode)
    | [] => pure 1
  | _ => pure 127

end GameInstaller.Shell
