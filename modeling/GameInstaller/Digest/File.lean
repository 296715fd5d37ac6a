import GameInstaller.Digest.Algorithm
import GameInstaller.Disk.Calls
import GameInstaller.Disk.IoError

/-! # Digests of streams and files -/

namespace GameInstaller.Digest

open Disk (ByteStream Call IoError)

/-- The hexadecimal digest of everything a stream yields. -/
def Algorithm.hexOfStream (alg : Algorithm) (s : ByteStream) : Except IoError String :=
  s.readAll.map alg.hexDigest

/-- Why a file has no digest. -/
inductive FileError where
  | notOpened (path : Path) (cause : IoError)
  | notRead (path : Path) (cause : IoError)

/-- The wording of the failure. -/
def FileError.message : FileError → String
  | notOpened p e => "cannot open " ++ p.text ++ ": " ++ e.text
  | notRead p e => "read error " ++ p.text ++ ": " ++ e.text

/-- The digest of a file in written form. -/
def ofFile (alg : Algorithm) (p : Path) : Call FileError String := do
  let stream ← match ← Disk.attempt (Disk.openStream p) with
    | .ok s => pure s
    | .error e => throw (.notOpened p e)
  match alg.hexOfStream stream with
  | .ok hex => pure (Expected.mk alg hex).display
  | .error e => throw (.notRead p e)

end GameInstaller.Digest
