import GameInstaller.Text.Blank

/-! # Package managers

The package managers that runners are installed with, how the distribution's identification names
them, and the commands they are driven by. -/

namespace GameInstaller

/-- A program with its arguments. -/
structure Invocation where
  program : String
  args : List String
  deriving DecidableEq, Repr

/-- A supported package manager. -/
inductive PackageManager where
  | apt
  | dnf
  deriving DecidableEq, Repr

namespace PackageManager

/-- The package manager of a distribution's identifier. -/
def ofIdentifier? (id : String) : Option PackageManager :=
  if ["debian", "ubuntu"].contains id then some apt
  else if ["fedora", "rhel", "centos"].contains id then some dnf
  else none

/-- The text before and after the first equals sign. -/
def splitAssignment : List Char → Option (List Char × List Char)
  | [] => none
  | c :: r => if c = '=' then some ([], r) else (splitAssignment r).map fun (k, v) => (c :: k, v)

/-- The identifiers that a line assigns, in lowercase. -/
def lineIdentifiers (line : List Char) : List String :=
  match splitAssignment line with
  | none => []
  | some (key, value) =>
    if key == "ID".toList || key == "ID_LIKE".toList then
      let value := Text.trimBoth (· == '"') (Text.trimBoth Text.isBlank value)
      (Text.words value).map fun w => String.ofList (w.map Char.toLower)
    else []

/-- The package manager of the first known identifier in the content of an os-release file. -/
def ofOsRelease (content : String) : Option PackageManager :=
  ((Text.lines content.toList).flatMap lineIdentifiers).findSome? ofIdentifier?

/-- The command that installs a package without asking. -/
def installCommand (m : PackageManager) (package : String) : Invocation :=
  match m with
  | apt => ⟨"apt-get", ["-y", "install", package]⟩
  | dnf => ⟨"dnf", ["-y", "install", package]⟩

/-- The commands that add a package archive and refresh the index; none where there are no such
    archives. -/
def repositoryCommands (m : PackageManager) (ppa : String) : Option (List Invocation) :=
  match m with
  | apt => some [⟨"add-apt-repository", ["-y", ppa]⟩, ⟨"apt-get", ["update"]⟩]
  | dnf => none

end PackageManager

end GameInstaller
