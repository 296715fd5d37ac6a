import GameInstaller.Archive.Format
import GameInstaller.Archive.Tar.Unpack
import GameInstaller.Archive.Zip.Unpack
import GameInstaller.Compression.Deflate
import GameInstaller.Disk.Transfer

/-! # Extracting archives -/

namespace GameInstaller.Archive

open Disk (ByteStream Fs Io about)

/-- What a tar archive reads as through the decompressor of its format. -/
def expanded (format : Format) (data : ByteArray) : ByteStream :=
  match format with
  | .tarGz => Compression.Gzip.read data
  | .tarBz2 => Compression.Bzip2.read data
  | .tarZst => Compression.Zstd.read data
  | .tar | .zip => ⟨[data], none⟩

/-- Unpack the archive at `archive` into a directory. -/
def unpack (archive dst : Path) (format : Format) : Io Unit := do
  let data ← Disk.readBytes archive
  match format with
  | .zip => Zip.unpack data dst
  | format => Tar.unpack (.ofStream (expanded format data)) dst

/-- Unpack an archive into a directory, which is made with its parents. -/
def extract (archive dst : Path) (format : Format) : Fs Unit := do
  if !(← get).pathExists archive then throw (.notFound archive)
  about dst (Disk.createDirAll dst)
  about archive (unpack archive dst format)

end GameInstaller.Archive
