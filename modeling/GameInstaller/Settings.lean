import GameInstaller.Disk.Calls
import GameInstaller.Environment
import GameInstaller.Slug
import GameInstaller.Text.Blank
import GameInstaller.Toml.Reader

/-! # Settings

Where games, downloads, entries and journals live, and how runners are installed.  Settings are
kept in a TOML file; a key that it does not give has its default, which follows the base
directories of the environment. -/

namespace GameInstaller

open Disk (Call PathError)

/-- User settings. -/
structure Settings where
  /-- Each game installs into a directory of its slug here. -/
  gamesDir : Path
  /-- Downloads, in a directory per slug. -/
  cacheDir : Path
  /-- Game entries. -/
  configDir : Path
  /-- Install journals. -/
  stateDir : Path
  libraryPath : Path
  /-- Wrapper for runner installs; blank runs the package manager directly. -/
  elevate : String
  /-- Whether installs are journalled. -/
  journal : Bool
  deriving DecidableEq, Repr

/-- Why settings were not loaded or saved. -/
inductive SettingsError where
  | io (path : Path) (cause : Disk.IoError)
  /-- The file is no settings document. -/
  | parse (path : Path)
  /-- A directory is empty. -/
  | invalid (key : String)
  | invalidSlug (slug : String)

/-- The wording of the failure. -/
def SettingsError.message : SettingsError → String
  | io p e => "cannot access " ++ p.text ++ ": " ++ e.text
  | parse p => "invalid settings " ++ p.text
  | invalid key => s!"invalid settings: {key} must not be empty"
  | invalidSlug slug => s!"game slug '{slug}' is not a single path component"

/-- The directories that defaults are laid out under. -/
structure BaseDirs where
  data : Path
  config : Path
  cache : Path

namespace BaseDirs

/-- The directory of this program under each base directory. -/
def appDir : String := "stagehand"

/-- The path of a variable when that is absolute, else a directory under the home directory. -/
def pick (env : Environment) (var : String) (fallback : List String) : Path :=
  let home : Path := ⟨(env.get? "HOME").getD "."⟩
  let otherwise := fallback.foldl Path.child home
  match env.get? var with
  | some v => if (Path.mk v).isAbsolute then ⟨v⟩ else otherwise
  | none => otherwise

/-- The base directories of an environment. -/
def ofEnvironment (env : Environment) : BaseDirs :=
  { data := pick env "XDG_DATA_HOME" [".local", "share"]
    config := pick env "XDG_CONFIG_HOME" [".config"]
    cache := pick env "XDG_CACHE_HOME" [".cache"] }

/-- All base directories under one root. -/
def rooted (root : Path) : BaseDirs :=
  ⟨root.child "data", root.child "config", root.child "cache"⟩

/-- The settings that go with base directories. -/
def settings (b : BaseDirs) : Settings :=
  let data := b.data.child appDir
  { gamesDir := data.child "games", cacheDir := b.cache.child appDir,
    configDir := b.config.child appDir, stateDir := data.child "state",
    libraryPath := data.child "library.db", elevate := "pkexec", journal := true }

end BaseDirs

namespace Settings

/-- The defaults in an environment. -/
def default (env : Environment) : Settings := (BaseDirs.ofEnvironment env).settings

/-- Everything under one root. -/
def rooted (root : Path) : Settings := (BaseDirs.rooted root).settings

/-- Where the settings of a user are. -/
def defaultPath (env : Environment) : Path :=
  ((BaseDirs.ofEnvironment env).config.child BaseDirs.appDir).child "settings.toml"

/-- The directories, with their keys, in the order in which they are checked. -/
def directories (s : Settings) : List (String × Path) :=
  [("games_dir", s.gamesDir), ("cache_dir", s.cacheDir), ("config_dir", s.configDir),
   ("state_dir", s.stateDir), ("library_path", s.libraryPath)]

/-- Refuse settings with an empty directory. -/
def validate (s : Settings) : Except SettingsError Unit :=
  match s.directories.find? fun (_, p) => p.text.isEmpty with
  | some (key, _) => .error (.invalid key)
  | none => .ok ()

/-! ## The settings document -/

/-- The value of a text key: the given one, or the default when the key is missing; nothing when it
    is no text. -/
def textKey (table : List (String × Toml.Value)) (key fallback : String) : Option String :=
  match Toml.get? table key with
  | none => some fallback
  | some (.text s) => some s
  | some _ => none

/-- The settings that a table gives, with defaults for the keys that it does not. -/
def ofTable? (defaults : Settings) (table : List (String × Toml.Value)) : Option Settings := do
  let path (key : String) (p : Path) : Option Path := (textKey table key p.text).map Path.mk
  let gamesDir ← path "games_dir" defaults.gamesDir
  let cacheDir ← path "cache_dir" defaults.cacheDir
  let configDir ← path "config_dir" defaults.configDir
  let stateDir ← path "state_dir" defaults.stateDir
  let libraryPath ← path "library_path" defaults.libraryPath
  let elevate ← textKey table "elevate" defaults.elevate
  let journal ← match Toml.get? table "journal" with
    | none => some defaults.journal
    | some (.boolean b) => some b
    | some _ => none
  pure { gamesDir, cacheDir, configDir, stateDir, libraryPath, elevate, journal }

/-- The settings that a text gives. -/
def ofToml? (defaults : Settings) (text : String) : Option Settings :=
  (Toml.read? text.toList).bind (ofTable? defaults)

/-- The document of settings: one line per key and an empty one. -/
def toToml (s : Settings) : String :=
  let line (key value : String) : String := key ++ " = " ++ value ++ "\n"
  line "games_dir" (Toml.encode s.gamesDir.text) ++ line "cache_dir" (Toml.encode s.cacheDir.text)
    ++ line "config_dir" (Toml.encode s.configDir.text)
    ++ line "state_dir" (Toml.encode s.stateDir.text)
    ++ line "library_path" (Toml.encode s.libraryPath.text)
    ++ line "elevate" (Toml.encode s.elevate)
    ++ line "journal" (if s.journal then "true" else "false") ++ "\n"

/-! ## Loading and saving -/

/-- Load settings. -/
def load (env : Environment) (p : Path) : Call SettingsError Settings := do
  match ← Disk.attempt (Disk.readText p) with
  | .error e => throw (.io p e)
  | .ok text =>
    match ofToml? (default env) text with
    | none => throw (.parse p)
    | some s =>
      match s.validate with
      | .ok () => pure s
      | .error e => throw e

/-- Load settings; the defaults when there is no file. -/
def loadOrDefault (env : Environment) (p : Path) : Call SettingsError Settings := do
  if (← get).pathExists p then load env p else pure (default env)

/-- Save settings. -/
def save (s : Settings) (p : Path) : Call SettingsError Unit := do
  match s.validate with
  | .error e => throw e
  | .ok () =>
    match ← Disk.attempt (Disk.replaceFile p "toml.tmp" s.toToml.toUTF8) with
    | .ok () => pure ()
    | .error e => throw (.io e.path e.cause)

/-- A directory of a slug. -/
def slugDir (dir : Path) (slug : String) : Except SettingsError Path :=
  if isSlug slug then .ok (dir.child slug) else .error (.invalidSlug slug)

/-- Where a game installs. -/
def gameDir (s : Settings) (slug : String) : Except SettingsError Path := slugDir s.gamesDir slug

/-- Where the downloads of a game are. -/
def gameCache (s : Settings) (slug : String) : Except SettingsError Path := slugDir s.cacheDir slug

/-- The wrapper for runner installs, unless it is blank. -/
def elevateCommand (s : Settings) : Option String :=
  let trimmed := Text.trim s.elevate
  if trimmed.isEmpty then none else some trimmed

end Settings

end GameInstaller
