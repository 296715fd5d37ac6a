import GameInstaller.Cli.Usage
import GameInstaller.Path

/-! # Requests

What a user can ask for on a command line: a subcommand with its operands and options.

* `Request.ofArguments`  the request that arguments make -/

namespace GameInstaller.Cli

/-- A shell that completions are made for. -/
inductive ShellName where
  | bash
  | elvish
  | fish
  | powershell
  | zsh
  deriving DecidableEq, Repr

namespace ShellName

/-- All shells. -/
def all : List ShellName := [bash, elvish, fish, powershell, zsh]

/-- The word for a shell. -/
def name : ShellName → String
  | bash => "bash"
  | elvish => "elvish"
  | fish => "fish"
  | powershell => "powershell"
  | zsh => "zsh"

/-- The shell of a word. -/
def ofName? (s : String) : Option ShellName := all.find? fun shell => shell.name == s

end ShellName

/-- A subcommand. -/
inductive Verb where
  | init
  | validate
  | install
  | commands
  | schema
  | hash
  | list
  | history
  | completions
  deriving DecidableEq, Repr

/-- What a user asks for. -/
inductive Request where
  /-- Write a recipe to start from. -/
  | init (directory : Path) (slug : String)
  /-- Check a recipe. -/
  | validate (recipe : Path)
  /-- Run a recipe. -/
  | install (recipe : Path) (settings gameDir : Option Path) (journal : Bool)
  /-- List the commands of steps. -/
  | commands
  /-- Print the schema of a command. -/
  | schema (command : String)
  /-- Print the digest of a file. -/
  | hash (file : Path) (algorithm : String)
  /-- List the installed games. -/
  | list (settings : Option Path)
  /-- Print the journal of a game. -/
  | history (slug : String) (settings : Option Path)
  /-- Print completions for a shell. -/
  | completions (shell : ShellName)
  deriving DecidableEq, Repr

/-- The file that recipes are kept in unless another one is named. -/
def recipeFile : String := "install.yml"

/-- The slug of a recipe to start from. -/
def starterSlug : String := "my-game"

/-- The algorithm of digests unless another one is named. -/
def usualAlgorithm : String := "sha256"

/-- The option that shows the usage. -/
def helpChoice : Choice := ⟨"help", some 'h', .help⟩

/-- The option that names the recipe. -/
def fileChoice : Choice := ⟨"file", some 'f', .value .path⟩

/-- The option that names the settings. -/
def settingsChoice : Choice := ⟨"settings", none, .value .path⟩

namespace Verb

/-- All subcommands. -/
def all : List Verb :=
  [init, validate, install, commands, schema, hash, list, history, completions]

/-- The word for a subcommand. -/
def name : Verb → String
  | init => "init"
  | validate => "validate"
  | install => "install"
  | commands => "commands"
  | schema => "schema"
  | hash => "hash"
  | list => "list"
  | history => "history"
  | completions => "completions"

/-- The subcommand of a word. -/
def ofName? (s : String) : Option Verb := all.find? fun v => v.name == s

/-- The operands of a subcommand. -/
def operands : Verb → List Operand
  | init => [⟨"path", .path, false⟩]
  | schema => [⟨"command", .text, true⟩]
  | hash => [⟨"file", .path, true⟩]
  | history => [⟨"slug", .text, true⟩]
  | completions => [⟨"shell", .oneOf (ShellName.all.map ShellName.name), true⟩]
  | _ => []

/-- The options of a subcommand. -/
def choices : Verb → List Choice
  | init => [helpChoice, ⟨"slug", none, .value .text⟩]
  | validate => [helpChoice, fileChoice]
  | install =>
    [helpChoice, fileChoice, settingsChoice, ⟨"game-dir", none, .value .path⟩,
     ⟨"no-journal", none, .flag⟩]
  | hash => [helpChoice, ⟨"algorithm", some 'a', .value .text⟩]
  | list => [helpChoice, settingsChoice]
  | history => [helpChoice, settingsChoice]
  | _ => [helpChoice]

/-- What a subcommand takes. -/
def usage (v : Verb) : Usage := ⟨v.operands, v.choices⟩

/-- The request that given values make. -/
def request (v : Verb) (given : List (String × String)) : Except Refusal Request :=
  let value? (name : String) : Option String := given.lookup name
  let path? (name : String) : Option Path := (value? name).map Path.mk
  match v with
  | init => .ok (.init ((path? "path").getD ⟨"."⟩) ((value? "slug").getD starterSlug))
  | validate => .ok (.validate ((path? "file").getD ⟨recipeFile⟩))
  | install =>
    .ok (.install ((path? "file").getD ⟨recipeFile⟩) (path? "settings") (path? "game-dir")
      (value? "no-journal").isNone)
  | commands => .ok .commands
  | schema => need (value? "command") .schema
  | hash =>
    need (path? "file") fun file => .hash file ((value? "algorithm").getD usualAlgorithm)
  | list => .ok (.list (path? "settings"))
  | history => need (value? "slug") fun slug => .history slug (path? "settings")
  | completions => need ((value? "shell").bind ShellName.ofName?) .completions
where
  need {α : Type} (value : Option α) (make : α → Request) : Except Refusal Request :=
    match value with
    | some a => .ok (make a)
    | none => .error .missingOperand

/-- Read the arguments of a subcommand. -/
def read (v : Verb) (arguments : List String) : Except Refusal Request := do
  v.request (← v.usage.read arguments)

end Verb

/-- The word that asks for the usage of a subcommand. -/
def helpVerb : String := "help"

/-- Whether a word is that of a subcommand, or asks for the usage of one. -/
def isVerb (word : String) : Bool := word == helpVerb || (Verb.ofName? word).isSome

/-- The words after the one that asks for a usage: at most one subcommand. -/
def helpFor : List String → Refusal
  | [] => .help
  | [word] => if isVerb word then .help else .unknownSubcommand
  | _ => .unknownSubcommand

/-- A single letter before any subcommand. -/
def topLetter : List Char → Refusal
  | 'h' :: _ => .help
  | 'V' :: _ => .version
  | _ => .unknownArgument

/-- A named option before any subcommand. -/
def topOption : String → Option String → Refusal
  | "help", none => .help
  | "version", none => .version
  | "help", some _ => .unneededValue
  | "version", some _ => .unneededValue
  | _, _ => .unknownArgument

/-- The request that arguments make. -/
def Request.ofArguments : List String → Except Refusal Request
  | [] => .error .nothingGiven
  | a :: rest =>
    match Argument.ofText a with
    | .dashes =>
      match rest with
      | [] => .error .nothingGiven
      | word :: _ => .error (if isVerb word then .unknownArgument else .unknownSubcommand)
    | .long name value => .error (topOption name value)
    | .short letters => .error (topLetter letters)
    | .plain word =>
      if word = helpVerb then .error (helpFor rest)
      else
        match Verb.ofName? word with
        | some v => v.read rest
        | none => .error .unknownSubcommand

/-! ## Shell completions

A script per shell that offers the subcommands as the first word after the program's name. -/

/-- The name that the program is called by. -/
def programName : String := "stagehand"

/-- The words that are offered. -/
def completionWords : List String := Verb.all.map Verb.name ++ [helpVerb]

/-- The script for a shell. -/
def ShellName.completion (shell : ShellName) : String :=
  let words := " ".intercalate completionWords
  match shell with
  | bash => "complete -W \"" ++ words ++ "\" " ++ programName ++ "\n"
  | elvish =>
    "set edit:completion:arg-completer[" ++ programName ++ "] = \x7b|@args| put " ++ words ++ " \x7d\n"
  | fish => "complete -c " ++ programName ++ " -n __fish_use_subcommand -a \"" ++ words ++ "\"\n"
  | powershell =>
    "Register-ArgumentCompleter -Native -CommandName " ++ programName ++ " -ScriptBlock \x7b -split \""
      ++ words ++ "\" \x7d\n"
  | zsh => "#compdef " ++ programName ++ "\n_arguments \"1: :(" ++ words ++ ")\"\n"

end GameInstaller.Cli
