import GameInstaller.Path

/-! # Archive formats

The formats an archive may have, the names a recipe may give them, and the format that a file name
shows. -/

namespace GameInstaller.Archive

/-- An archive format. -/
inductive Format where
  | tar
  | tarGz
  | tarBz2
  | tarZst
  | zip
  deriving DecidableEq, Repr

namespace Format

/-- The name of a format. -/
def name : Format → String
  | tar => "tar"
  | tarGz => "tar.gz"
  | tarBz2 => "tar.bz2"
  | tarZst => "tar.zst"
  | zip => "zip"

/-- All formats. -/
def all : List Format := [tar, tarGz, tarBz2, tarZst, zip]

/-- Every spelling a recipe may use, with its format. -/
def spellings : List (String × Format) :=
  [("tar", tar), ("tar.gz", tarGz), ("tgz", tarGz), ("tar.bz2", tarBz2), ("tbz2", tarBz2),
   ("tar.zst", tarZst), ("tzst", tarZst), ("zip", zip)]

/-- The format of a spelling; letter case counts. -/
def ofName? (s : String) : Option Format :=
  (spellings.find? fun (n, _) => n == s).map (·.2)

/-- The endings of file names that show a format. -/
def endings : List (String × Format) :=
  [(".tar.gz", tarGz), (".tgz", tarGz), (".tar.bz2", tarBz2), (".tbz2", tarBz2),
   (".tar.zst", tarZst), (".tzst", tarZst), (".tar", tar), (".zip", zip)]

/-- The format that the name of a file shows, ASCII letter case aside. -/
def detect (p : Path) : Option Format :=
  match p.fileName? with
  | none => none
  | some name =>
    let lower := name.toList.map Char.toLower
    (endings.find? fun (e, _) => e.toList.isSuffixOf lower).map (·.2)

end Format

end GameInstaller.Archive
