import GameInstaller.Cli.Request
import GameInstaller.Command.Schema
import GameInstaller.Digest.File
import GameInstaller.Install.Machine
import GameInstaller.Install.Session
import GameInstaller.Json.Writer
import GameInstaller.Library
import GameInstaller.Recipe.Parse
import GameInstaller.Settings

/-! # Running requests

What each request does on a machine, and what it reports.

* `Report`       what a request wrote, and whether it failed
* `Job`          a request under way; it may end early with its report
* `Request.run`  run a request -/

namespace GameInstaller.Cli

open Disk (Call)

/-- What a request wrote, and how it ended. -/
structure Report where
  /-- The regular output. -/
  output : String
  /-- A line for each error of an install attempt, advisory ones included. -/
  notices : List String
  /-- Why the request failed, if it did. -/
  failure : Option String
  deriving DecidableEq, Repr

namespace Report

/-- The report of a request that failed, after some notices. -/
def failed (notices : List String) (message : String) : Report := ⟨"", notices, some message⟩

/-- The exit code that goes with a report. -/
def code (r : Report) : Nat := if r.failure.isSome then 1 else 0

end Report

/-- A line of output. -/
def line (text : String) : Report := ⟨text ++ "\n", [], none⟩

/-- Lines of output. -/
def lines (texts : List String) : Report := ⟨String.join (texts.map (· ++ "\n")), [], none⟩

/-- A request under way on a machine; what it does stays done when it ends early. -/
abbrev Job (α : Type) := ExceptT Report (StateM Machine) α

namespace Job

/-- End with a failure. -/
def fail {α : Type} (message : String) : Job α := throw (.failed [] message)

/-- A value, unless it is an error. -/
def ofExcept {ε α : Type} (message : ε → String) : Except ε α → Job α
  | .ok a => pure a
  | .error e => fail (message e)

/-- A call on the disk whose failure ends the request. -/
def ofCall {ε α : Type} (message : ε → String) (x : Call ε α) : Job α := do
  let outcome : Except ε α ← liftM (Machine.call x)
  ofExcept message outcome

/-- A request with these notices in its report, however it ends. -/
def withNotices (notices : List String) (x : Job Report) : Job Report :=
  ExceptT.mk do
    match ← ExceptT.run x with
    | .ok r => pure (.ok { r with notices })
    | .error r => pure (.error { r with notices })

end Job

open Job (ofExcept ofCall)

/-- The line for an error of an install attempt. -/
def notice (e : InstallError) : String :=
  let label := match e.severity with
    | .advisory => "WARNING"
    | .fatal => "ERROR"
  s!"  {label}: {e.display}"

/-- The lines for errors of an install attempt. -/
def noticesOf (errors : Errors) : List String := errors.map notice

/-- A text filled up with blanks to a width. -/
def padded (width : Nat) (text : String) : String :=
  text ++ String.ofList (List.replicate (width - text.length) ' ')

/-! ## Recipes -/

/-- A recipe to start from. -/
def starterRecipe (slug : String) : String :=
  "name: \"My Game\"\n"
    ++ "game_slug: " ++ slug ++ "\n"
    ++ "runner: linux\n"
    ++ "\n"
    ++ "steps:\n"
    ++ "  - checksum:\n"
    ++ "      file: " ++ slug ++ ".tar.gz\n"
    ++ "      hash: \"sha256:" ++ String.ofList (List.replicate 64 '0') ++ "\"\n"
    ++ "  - extract:\n"
    ++ "      file: " ++ slug ++ ".tar.gz\n"
    ++ "  - mkdir: $GAMEDIR/saves\n"
    ++ "  - write_config: $GAMEDIR/" ++ slug ++ "/start.sh\n"

/-- Make a directory and the ones above it, or fail. -/
def makeDirectory (p : Path) : Job Unit :=
  ofCall (fun e => "cannot create " ++ p.text ++ ": " ++ e.text) (Disk.createDirAll p)

/-- Write a recipe to start from; one that is there already is kept. -/
def init (directory : Path) (slug : String) : Job Report := do
  let file := directory.child recipeFile
  if (← get).disk.pathExists file then Job.fail (file.text ++ " already exists")
  else
    makeDirectory directory
    ofCall (fun e => "cannot write " ++ file.text ++ ": " ++ e.text)
      (Disk.writeBytes file (starterRecipe slug).toUTF8)
    pure (line ("Created " ++ file.text))

/-- Start a session on the recipe in a file. -/
def openRecipe (p : Path) : Job Session := do
  pure (Session.start (← ofCall RecipeError.message (Recipe.ofFile p)))

/-- Check a recipe. -/
def validate (p : Path) : Job Report := do
  let (v, s) := (← openRecipe p).validate
  if v.isValid then
    let game := s.recipe.game
    pure (line s!"OK: {game.name} ({game.runner}, {s.recipe.steps.length} steps)")
  else throw (.failed (noticesOf s.errors) s!"{s.errors.length} validation error(s)")

/-- The report for a recipe that is not installed because it is not valid. -/
def rejected (s : Session) : Report :=
  .failed (noticesOf s.errors) s!"recipe rejected: {s.errors.length} error(s)"

/-! ## Settings -/

/-- The settings in a file; those of the user when none is named. -/
def loadSettings (p : Option Path) : Job Settings := do
  let env := (← get).environ
  match p with
  | some p => ofCall SettingsError.message (Settings.load env p)
  | none => ofCall SettingsError.message (Settings.loadOrDefault env (Settings.defaultPath env))

/-! ## Installing -/

/-- Where an install goes. -/
structure Place where
  settings : Settings
  gameDir : Path
  cacheDir : Path
  /-- Whether a journal is kept. -/
  journal : Bool

namespace Place

/-- The directories of a game. -/
def ofGame (settings : Settings) (gameDir : Option Path) (journal : Bool) (game : Game) :
    Except SettingsError Place := do
  let gameDir ← match gameDir with
    | some p => pure p
    | none => settings.gameDir game.slug
  let cacheDir ← settings.gameCache game.slug
  pure { settings, gameDir, cacheDir, journal := settings.journal && journal }

/-- The context of an install. -/
def context (p : Place) (home : Option String) : Context :=
  { Context.ofGameDir p.gameDir home with
    cacheDir := p.cacheDir
    journalDir := if p.journal then some p.settings.stateDir else none }

/-- What an install of a game acts through. -/
def host (p : Place) (game : Game) : Host Machine :=
  Machine.host ((SystemRunner.lookup game.runner).withElevate p.settings.elevateCommand)
    p.settings.configDir

end Place

/-- Enter an installed game into the library. -/
def enroll (p : Place) (game : Game) : Job Unit := do
  let file := p.settings.libraryPath
  ofCall LibraryError.message (Library.openAt file)
  ofCall LibraryError.message (Library.record file
    { slug := game.slug, name := game.name, runner := game.runner, directory := p.gameDir
      installedAt := Time.stamp (← get).now.secs })

/-- Report on an attempt, and enter the game into the library when it has been installed. -/
def conclude (p : Place) (game : Game) (s : Session) : RunResult → Job Report
  | .succeeded steps => Job.withNotices (noticesOf s.errors) do
    enroll p game
    pure (line s!"Installed {game.name} ({steps} steps) into {p.gameDir.text}")
  | .rejected _ => throw (rejected s)
  | .failed e errors => throw (.failed (noticesOf errors) ("install failed: " ++ e.display))
  | .abandoned n =>
    Job.fail s!"install abandoned after {n} step(s); completed steps were not undone"

/-- Run a recipe. -/
def install (recipe : Path) (settings gameDir : Option Path) (journal : Bool) : Job Report := do
  let settings ← loadSettings settings
  let (v, s) := (← openRecipe recipe).validate
  if !v.isValid then throw (rejected s)
  let game := s.recipe.game
  let place ← ofExcept SettingsError.message (Place.ofGame settings gameDir journal game)
  makeDirectory place.gameDir
  makeDirectory place.cacheDir
  let context := place.context ((← get).environ.get? "HOME")
  let (result, s) ← s.install (place.host game) context
  conclude place game s result

/-! ## Showing -/

/-- List the commands of steps. -/
def commands : Report :=
  lines (Command.names.filterMap fun name =>
    (Command.ofName? name).map fun c => "  " ++ padded 14 name ++ " " ++ c.summary)

/-- Print the schema of a command's parameters. -/
def schema (name : String) : Job Report := do
  let command ← ofExcept ScriptingError.message (Command.resolve name)
  pure (line command.schema.toJson.pretty)

/-- Print the digest of a file in the form that a checksum step expects. -/
def hash (file : Path) (algorithm : String) : Job Report := do
  match Digest.Algorithm.ofLabel? algorithm with
  | none => Job.fail s!"unknown digest algorithm '{algorithm}'"
  | some a => do
    pure (line (← ofCall Digest.FileError.message (Digest.ofFile a file)))

/-- The installed games; none when there is no library yet. -/
def installedGames (settings : Settings) : Job Rows := do
  let file := settings.libraryPath
  if (← get).disk.pathExists file then
    ofCall LibraryError.message (Library.openAt file)
    ofCall LibraryError.message (Library.rows file)
  else pure []

/-- The line for an installed game. -/
def gameLine (e : LibraryEntry) : String :=
  "  " ++ padded 20 e.slug ++ " " ++ padded 10 e.runner ++ " " ++ e.directory.text
    ++ " (" ++ e.installedAt ++ ")"

/-- List the installed games. -/
def list (settings : Option Path) : Job Report := do
  let rows ← installedGames (← loadSettings settings)
  if rows.isEmpty then pure (line "No games installed.")
  else pure (lines (rows.list.map gameLine))

/-- Print the journal of a game. -/
def history (slug : String) (settings : Option Path) : Job Report := do
  let settings ← loadSettings settings
  let events ← ofCall Journal.LogError.message (Journal.read settings.stateDir slug)
  if events.isEmpty then pure (line s!"No journal for {slug}.")
  else pure (lines (events.map fun e => e.time ++ "  " ++ e.event.toJson.compact))

/-! ## Requests -/

/-- What is shown to a user who asks for the version. -/
def versionLine : String := programName ++ " " ++ version ++ "\n"

/-- What a request does. -/
def Request.job : Request → Job Report
  | init directory slug => Cli.init directory slug
  | validate recipe => Cli.validate recipe
  | install recipe settings gameDir journal => Cli.install recipe settings gameDir journal
  | commands => pure Cli.commands
  | schema command => Cli.schema command
  | hash file algorithm => Cli.hash file algorithm
  | list settings => Cli.list settings
  | history slug settings => Cli.history slug settings
  | completions shell => pure ⟨shell.completion, [], none⟩

/-- Run a request. -/
def Request.run (r : Request) : StateM Machine Report := do
  match ← ExceptT.run r.job with
  | .ok report => pure report
  | .error report => pure report

/-! ## What a request reads

The files that a request looks at, so that they can be put on the machine it runs on.  Some are
known from the request alone; others only from the settings and the recipe. -/

/-- The files that a request names. -/
def Request.namedFiles (env : Environment) : Request → List Path
  | init directory _ => [directory.child recipeFile]
  | validate recipe => [recipe]
  | install recipe settings _ _ => [recipe, settings.getD (Settings.defaultPath env)]
  | hash file _ => [file]
  | list settings => [settings.getD (Settings.defaultPath env)]
  | history _ settings => [settings.getD (Settings.defaultPath env)]
  | _ => []

/-- The inputs of an operation, as the recipe spells them. -/
def inputsOf : Operation → List String
  | .move t => [t.src]
  | .copy t => [t.src]
  | .extract file _ _ => [file]
  | .checksum file _ => [file]
  | _ => []

/-- The inputs of the steps of a recipe. -/
def inputsOfSteps (c : Context) (g : Game) (steps : List Step) : List Path :=
  steps.flatMap fun s =>
    match s.operation with
    | .ok operation => (inputsOf operation).map (c.inputPath g)
    | .error _ => []

/-- The journal of a game, when it may have one. -/
def journalFile (settings : Settings) (slug : String) : List Path :=
  match Journal.logPath settings.stateDir slug with
  | .ok p => [p]
  | .error _ => []

/-- The files that the settings and the recipe lead to. -/
def Request.foundFiles : Request → Job (List Path)
  | install recipe settings gameDir journal => do
    let settings ← loadSettings settings
    let s ← openRecipe recipe
    let game := s.recipe.game
    let place ← Job.ofExcept SettingsError.message (Place.ofGame settings gameDir journal game)
    let context := place.context ((← get).environ.get? "HOME")
    pure (settings.libraryPath :: journalFile settings game.slug
      ++ inputsOfSteps context game s.recipe.steps)
  | list settings => do pure [(← loadSettings settings).libraryPath]
  | history slug settings => do pure (journalFile (← loadSettings settings) slug)
  | _ => pure []

/-- The files that the settings and the recipe lead to; none when these cannot be read. -/
def Request.furtherFiles (r : Request) (m : Machine) : List Path :=
  match ((ExceptT.run r.foundFiles).run m).1 with
  | .ok files => files
  | .error _ => []

end GameInstaller.Cli
