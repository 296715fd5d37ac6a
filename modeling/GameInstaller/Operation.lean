import GameInstaller.Archive.Format
import GameInstaller.Command.Basic
import GameInstaller.Digest.Algorithm

/-! # Operations

A step whose parameters matched its command's shape.  Paths are kept as the recipe spells them;
variables are substituted when the operation is applied. -/

namespace GameInstaller

/-- Source and destination of a transfer. -/
structure Transfer where
  /-- Relative paths are under the cache directory. -/
  src : String
  /-- Relative paths are under the game directory. -/
  dst : String
  deriving DecidableEq, Repr

/-- A bound step. -/
inductive Operation where
  | move (t : Transfer)
  | copy (t : Transfer)
  | mkdir (path : String)
  /-- Without a destination the game directory; without a format the one the file name shows. -/
  | extract (file : String) (dst : Option String) (format : Option Archive.Format)
  | execute (file : String) (args : List String)
  | checksum (file : String) (expected : Digest.Expected)
  | checkDepends
  | writeConfig (file : String)
  deriving DecidableEq, Repr

/-- The command an operation belongs to. -/
def Operation.command : Operation → Command
  | move _ => .move
  | copy _ => .copy
  | mkdir _ => .mkdir
  | extract .. => .extract
  | execute .. => .execute
  | checksum .. => .checksum
  | checkDepends => .checkDepends
  | writeConfig _ => .writeConfig

end GameInstaller
