import GameInstaller.Cli.Run

/-! # The command line

One request, on a machine that holds the files it reads.  What the request changes is written back
to the system; programs that a recipe runs are those of the machine. -/

namespace GameInstaller

/-- The variables that a request looks at. -/
def variableNames : List String :=
  ["HOME", "PATH", "XDG_DATA_HOME", "XDG_CONFIG_HOME", "XDG_CACHE_HOME"]

/-- The environment of the system. -/
def systemEnvironment : IO Environment := do
  let vars ← variableNames.filterMapM fun name => do
    pure ((← IO.getEnv name).map fun value => (name, value))
  pure ⟨vars⟩

/-- The time that requests are taken to be made at, in seconds since 1970. -/
def systemTime : IO Time.Instant := do
  let secs := ((← IO.getEnv "SOURCE_DATE_EPOCH").bind String.toNat?).getD 0
  pure ⟨secs, 0⟩

/-- A machine whose working directory is that of the system. -/
def systemMachine : IO Machine := do
  let machine := Machine.fresh (← systemEnvironment) (← systemTime)
  let directory : Path := ⟨toString (← IO.currentDir)⟩
  let (_, disk) := (ExceptT.run (Disk.createDirAll directory)).run machine.disk
  pure { machine with disk := { disk with working := Disk.locationOf directory } }

/-- The disk with a file, and the directories above it. -/
def withFile (d : Disk) (p : Path) (content : ByteArray) : Disk :=
  let store : Disk.Io Unit := do
    if let some parent := p.parent? then Disk.createDirAll parent
    Disk.writeBytes p content
  ((ExceptT.run store).run d).2

/-- A machine with the files of the system at some paths, as far as they are there. -/
def fetch (m : Machine) (paths : List Path) : IO Machine :=
  paths.foldlM (fun m p => do
    match ← (IO.FS.readBinFile p.text).toBaseIO with
    | .ok content => pure { m with disk := withFile m.disk p content }
    | .error _ => pure m) m

/-- The path of a location. -/
def pathText (l : Location) : String := "/" ++ "/".intercalate l

/-- Make what is on one disk, and was not on another, on the system. -/
def deliver (before after : Disk) : IO Unit := do
  for (l, n) in after.entries do
    if before.find? l ≠ some n then
      match n with
      | .dir => IO.FS.createDirAll (pathText l)
      | .file content _ _ => IO.FS.writeBinFile (pathText l) content
      | .link _ => pure ()
  for (l, n) in before.entries do
    if n.isFile && (after.find? l).isNone then IO.FS.removeFile (pathText l)

namespace Cli

/-- How the program is called. -/
def usageLine : String := "usage: " ++ programName ++ " " ++ "|".intercalate completionWords

/-- What the user is told when arguments make no request. -/
def Refusal.tell : Refusal → IO Unit
  | .version => IO.print versionLine
  | .help => IO.println usageLine
  | _ => IO.eprintln usageLine

/-- Show a report. -/
def Report.tell (r : Report) : IO Unit := do
  for notice in r.notices do IO.eprintln notice
  IO.print r.output
  if let some message := r.failure then IO.eprintln ("error: " ++ message)

end Cli

end GameInstaller

open GameInstaller in
/-- Run the request that the arguments make. -/
def main (args : List String) : IO UInt32 := do
  match Cli.Request.ofArguments args with
  | .error refusal =>
    refusal.tell
    pure (UInt32.ofNat refusal.code)
  | .ok request =>
    let machine ← systemMachine
    let machine ← fetch machine (request.namedFiles machine.environ)
    let machine ← fetch machine (request.furtherFiles machine)
    let (report, after) := request.run.run machine
    deliver machine.disk after.disk
    report.tell
    pure (UInt32.ofNat report.code)
