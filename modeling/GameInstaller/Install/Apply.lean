import GameInstaller.Digest.File
import GameInstaller.Install.Context
import GameInstaller.Install.Error
import GameInstaller.Install.Host

/-! # Applying operations

The effect of each operation on its host. -/

namespace GameInstaller

open Disk (Fault)

variable {σ : Type}

/-- What an operation gives: nothing, or the error of its step. -/
abbrev Applied := Except ExecutionError Unit

/-- A failure of the filesystem as the error of a step. -/
def faultError (r : Except Fault Unit) : Applied := r.mapError Fault.toError

/-- The format of an archive: the given one, or the one that its name shows. -/
def archiveFormat (archive : Path) (format : Option Archive.Format) : Option Archive.Format :=
  format.orElse fun _ => Archive.Format.detect archive

/-- Run a program and wait for it. -/
def Host.execute (h : Host σ) (c : Context) (program : Path) (args : List String) : StateM σ Applied := do
  match ← h.spawn ⟨program, args, some c.workingDir, c.env⟩ with
  | .error e =>
    let kind : FailureKind := match e.kind with
      | .notFound => .notFound
      | .permissionDenied => .permissionDenied
      | _ => .process
    pure (.error (.new kind ("failed to run " ++ program.text ++ ": " ++ e.text)))
  | .ok exit =>
    if exit.success then pure (.ok ())
    else
      pure (.error (.new .process
        (program.text ++ " exited with code " ++ exit.codeText ++ ": " ++ exit.complaintText)))

/-- The error of a file whose digest is not the expected one. -/
def mismatch (p : Path) (expected : Digest.Expected) (actual : String) : ExecutionError :=
  .new .checksum ("checksum mismatch for " ++ p.text ++ ": expected " ++ expected.display
    ++ ", got " ++ expected.algorithm.label ++ ":" ++ actual)

/-- Whether what a stream yields has the expected digest. -/
def verify (p : Path) (expected : Digest.Expected) (s : Disk.ByteStream) :
    Except ExecutionError Unit :=
  match expected.algorithm.hexOfStream s with
  | .error e => .error (Fault.ofIo p e).toError
  | .ok actual => if actual = expected.hex then .ok () else .error (mismatch p expected actual)

/-- Check the digest of a file. -/
def Host.checksum (h : Host σ) (p : Path) (expected : Digest.Expected) : StateM σ Applied := do
  match ← h.openFile p with
  | .error f => pure (.error f.toError)
  | .ok s => pure (verify p expected s)

/-- Install a runner unless it is there. -/
def ensureInstalled (r : Runner σ) : StateM σ Applied := do
  if ← r.isInstalled then pure (.ok ())
  else
    match ← r.install with
    | .ok () => pure (.ok ())
    | .error e =>
      pure (.error (.new .runner (s!"cannot install runner '{r.name}': " ++ e.message)))

/-- Make sure that the runner is there, and before it what it needs. -/
def Host.checkDepends (h : Host σ) : StateM σ Applied := do
  match h.dependency with
  | none => ensureInstalled h.runner
  | some d =>
    match ← ensureInstalled d with
    | .ok () => ensureInstalled h.runner
    | .error e => pure (.error e)

/-- What a path may be spelled as in front of it. -/
def fileUrl : List Char := "file://".toList

/-- A text without the start of a file URL. -/
def dropFileUrl (text : String) : String :=
  if fileUrl.isPrefixOf text.toList then String.ofList (text.toList.drop fileUrl.length) else text

/-- Save the entry of a game whose executable is at a path. -/
def Host.writeConfig (h : Host σ) (g : Game) (executable : Path) : StateM σ Applied := do
  match executable.parent?, executable.fileName? with
  | some dir, some name =>
    match ← h.saveEntry g.slug ⟨dir, name, g.name, g.runner⟩ with
    | .ok () => pure (.ok ())
    | .error e =>
      pure (.error (.new .config (s!"cannot save config for '{g.slug}': " ++ e.message)))
  | _, _ => pure (.error (.new .config s!"'{executable.text}' does not name an executable"))

/-- The effect of an operation. -/
def Operation.apply (h : Host σ) (c : Context) (g : Game) : Operation → StateM σ Applied
  | move t => do pure (faultError (← h.movePath (c.inputPath g t.src) (c.targetPath g t.dst)))
  | copy t => do pure (faultError (← h.copyTree (c.inputPath g t.src) (c.targetPath g t.dst)))
  | mkdir p => do pure (faultError (← h.createDir (c.targetPath g p)))
  | extract file dst format => do
    let archive := c.inputPath g file
    let dst := match dst with
      | some d => c.targetPath g d
      | none => c.gameDir
    match archiveFormat archive format with
    | none => pure (.error (Fault.unsupported archive).toError)
    | some f => pure (faultError (← h.extract archive dst f))
  | execute file args =>
    h.execute c (c.programPath (c.text g file)) (args.map (c.text g))
  | checksum file expected => h.checksum (c.inputPath g file) expected
  | checkDepends => h.checkDepends
  | writeConfig file => h.writeConfig g (c.targetPath g (dropFileUrl (c.text g file)))

end GameInstaller
