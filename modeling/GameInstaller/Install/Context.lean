import GameInstaller.Environment
import GameInstaller.Path
import GameInstaller.Recipe.Basic

/-! # What parameters refer to

The variables that parameters may hold, and the game and the directories that give them their values. -/

/-! ## Variables in parameters

`$NAME` stands for the value of a variable.  A name is a capital letter or underscore, followed by
as many capital letters, digits and underscores as there are.  An unknown variable stays as
written, and a value is not looked through again. -/

namespace GameInstaller

/-- Whether a name of a variable may start with this character. -/
def isVariableStart (c : Char) : Bool := c.isUpper || c == '_'

/-- Whether a name of a variable may go on with this character. -/
def isVariableChar (c : Char) : Bool := c.isUpper || c.isDigit || c == '_'

/-- What a reference to a variable stands for. -/
def Environment.reference (vars : Environment) (name : List Char) : List Char :=
  match vars.get? (String.ofList name) with
  | some value => value.toList
  | none => '$' :: name

/-- Characters with every known variable replaced by its value. -/
def Environment.expandChars (vars : Environment) : List Char → List Char
  | [] => []
  | c :: r =>
    match c, r with
    | '$', s :: r' =>
      if isVariableStart s then
        vars.reference (s :: r'.takeWhile isVariableChar)
          ++ vars.expandChars (r'.dropWhile isVariableChar)
      else '$' :: vars.expandChars (s :: r')
    | c, r => c :: vars.expandChars r
termination_by cs => cs.length
decreasing_by
  all_goals simp_wf
  · have := (List.dropWhile_sublist isVariableChar (l := r')).length_le; omega

/-- A text with every known variable replaced by its value. -/
def Environment.expand (vars : Environment) (text : String) : String :=
  String.ofList (vars.expandChars text.toList)

/-! ## Where a recipe installs

The game that a recipe names, the directories of one install, and the values that parameters may
refer to.  Relative inputs are under the cache directory, relative targets under the game
directory. -/

/-- The game that a recipe installs; what it does not name is empty. -/
structure Game where
  slug : String
  name : String
  runner : String
  deriving DecidableEq, Repr

/-- The game that the metadata of a recipe names. -/
def Recipe.game (r : Recipe) : Game :=
  ⟨r.gameSlug.getD "", r.name.getD "", r.runner.getD ""⟩

/-- The directories and the environment of an install. -/
structure Context where
  /-- Where the game is installed. -/
  gameDir : Path
  /-- Where downloads are. -/
  cacheDir : Path
  /-- Where programs run. -/
  workingDir : Path
  /-- What spawned programs are given on top of the environment; also variables. -/
  env : Environment
  /-- Where the journal is kept, if it is. -/
  journalDir : Option Path
  /-- The home directory of the user. -/
  home : Option String
  deriving Repr

namespace Context

/-- The context of a game directory. -/
def ofGameDir (gameDir : Path) (home : Option String) : Context :=
  { gameDir, cacheDir := gameDir.child ".cache", workingDir := gameDir, env := ⟨[]⟩,
    journalDir := none, home }

/-- What `$NAME` stands for.  The names of the install itself win over those of the
    environment. -/
def scope (c : Context) (g : Game) : Environment :=
  let home := match c.home with
    | some h => [("HOME", h)]
    | none => []
  (((⟨[]⟩ : Environment).extend home).extend c.env.vars).extend
    [("GAMEDIR", c.gameDir.text), ("CACHE", c.cacheDir.text), ("GAME_SLUG", g.slug),
     ("NAME", g.name), ("RUNNER", g.runner)]

/-- A text with its variables replaced. -/
def text (c : Context) (g : Game) (raw : String) : String := (c.scope g).expand raw

/-- The path of an input. -/
def inputPath (c : Context) (g : Game) (raw : String) : Path := c.cacheDir / ⟨c.text g raw⟩

/-- The path of a target. -/
def targetPath (c : Context) (g : Game) (raw : String) : Path := c.gameDir / ⟨c.text g raw⟩

/-- The program that a text names: one under the working directory when it is relative and has a
    slash, else one on the search path or an absolute path. -/
def programPath (c : Context) (text : String) : Path :=
  if text.toList.contains '/' && (Path.mk text).isRelative then c.workingDir / ⟨text⟩ else ⟨text⟩

end Context

end GameInstaller
