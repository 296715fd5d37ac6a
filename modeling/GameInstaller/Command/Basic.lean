/-! # The command table

The closed set of commands a recipe step may name.  A name is matched exactly; helper functions are
never entries. -/

namespace GameInstaller

/-- A command. -/
inductive Command where
  | move
  | copy
  | mkdir
  | extract
  | execute
  | checksum
  | checkDepends
  | writeConfig
  deriving DecidableEq, Repr

namespace Command

/-- All commands. -/
def all : List Command := [move, copy, mkdir, extract, execute, checksum, checkDepends, writeConfig]

/-- The name a recipe uses. -/
def name : Command → String
  | move => "move"
  | copy => "copy"
  | mkdir => "mkdir"
  | extract => "extract"
  | execute => "execute"
  | checksum => "checksum"
  | checkDepends => "check_depends"
  | writeConfig => "write_config"

/-- One line of help. -/
def summary : Command → String
  | move => "move a file or directory: \x7bsrc, dst\x7d"
  | copy => "copy and merge a file or directory tree: \x7bsrc, dst\x7d"
  | mkdir => "create a directory and its parents: <path>"
  | extract => "unpack a tar/zip archive: \x7bfile, dst?, format?\x7d"
  | execute => "run a program: <file> or \x7bfile, args?\x7d"
  | checksum =>
    "verify a file digest: \x7bfile, hash: sha256:<hex>|blake3:<hex>|md5:<hex>\x7d"
  | checkDepends => "install the runner and its dependency if missing"
  | writeConfig => "save the game entry: <executable> or \x7bfile\x7d"

/-- The command of a name. -/
def ofName? (s : String) : Option Command :=
  all.find? fun c => c.name == s

/-- The names of all commands, sorted. -/
def names : List String :=
  (all.map name).mergeSort fun a b => a ≤ b

end Command

end GameInstaller
