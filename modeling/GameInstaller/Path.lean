import GameInstaller.Text.Blank

/-! # Paths

A path is the text that names an entry of a file tree.  The text is kept as written (repeated and
trailing slashes included); `Path.components` is the view by which two spellings of one path
agree.

* `join`           append a relative path; an absolute one takes the place of the whole
* `parent?`        the text before the last component, without the separators that ended it
* `fileName?`      the last component, when it is a name
* `withExtension`  the path with everything after the file's stem replaced -/

namespace GameInstaller

/-- A path, as text. -/
structure Path where
  text : String
  deriving DecidableEq, Repr, Inhabited

/-- One component of a path. -/
inductive Component where
  /-- The leading slash. -/
  | root
  /-- A leading `.`; elsewhere `.` is no component. -/
  | here
  /-- The parent directory `..`. -/
  | up
  /-- A name. -/
  | normal (name : List Char)
  deriving DecidableEq, Repr

namespace Path

/-- Whether the text starts at the root. -/
def isAbsolute (p : Path) : Bool :=
  match p.text.toList with
  | '/' :: _ => true
  | _ => false

/-- Whether the text starts elsewhere than at the root. -/
def isRelative (p : Path) : Bool := !p.isAbsolute

/-- A segment between slashes that contributes no component: empty, or `.`. -/
def isSilent (seg : List Char) : Bool :=
  seg == [] || seg == ['.']

/-- The component of a segment that is not silent. -/
def ofSegment (seg : List Char) : Component :=
  if seg == ['.', '.'] then .up else .normal seg

/-- Components of the segments after the first. -/
def laterComponents (segs : List (List Char)) : List Component :=
  (segs.filter fun s => !isSilent s).map ofSegment

/-- Components of a list of characters. -/
def componentsOf : List Char → List Component
  | '/' :: r => .root :: laterComponents (Text.pieces '/' r)
  | cs =>
    match Text.pieces '/' cs with
    | ['.'] :: segs => .here :: laterComponents segs
    | segs => laterComponents segs

/-- The components of a path. -/
def components (p : Path) : List Component :=
  componentsOf p.text.toList

/-- Append characters to the characters of a path. -/
def joinChars (p q : List Char) : List Char :=
  match q with
  | '/' :: _ => q
  | _ =>
    match p.getLast? with
    | none => q
    | some '/' => p ++ q
    | some _ => p ++ '/' :: q

/-- `q` as seen from `p`: `q` itself when absolute, else `p`, a slash unless there is one, and
    `q`. -/
def join (p q : Path) : Path :=
  ⟨String.ofList (joinChars p.text.toList q.text.toList)⟩

instance : Div Path where
  div := join

/-- `p` joined with the path that a text names. -/
def child (p : Path) (name : String) : Path :=
  p.join ⟨name⟩

/-- Segments joined by single slashes. -/
def unsplit : List (List Char) → List Char
  | [] => []
  | [s] => s
  | s :: r => s ++ '/' :: unsplit r

/-- Segments without the silent ones at their end; `keepFirst` protects a leading `.`. -/
def dropSilentEnd (keepFirst : Bool) (segs : List (List Char)) : List (List Char) :=
  match segs with
  | [] => []
  | s :: r =>
    match dropSilentEnd false r with
    | [] => if isSilent s && !(keepFirst && s == ['.']) then [] else [s]
    | r' => s :: r'

/-- Whether the text is rooted, and its segments with the silent ones at the end dropped. -/
def body (p : Path) : Bool × List (List Char) :=
  match p.text.toList with
  | '/' :: r => (true, dropSilentEnd false (Text.pieces '/' r))
  | cs => (false, dropSilentEnd true (Text.pieces '/' cs))

/-- The path before its last component; none for a root and for the empty path. -/
def parent? (p : Path) : Option Path :=
  match p.body with
  | (_, []) => none
  | (rooted, segs) =>
    let front := unsplit (dropSilentEnd (!rooted) segs.dropLast)
    some ⟨String.ofList (if rooted then '/' :: front else front)⟩

/-- The last component, when it is a name. -/
def fileName? (p : Path) : Option String :=
  match p.components.getLast? with
  | some (.normal name) => some (String.ofList name)
  | _ => none

/-- A file name cut before its last dot; a dot at the start does not count. -/
def stem (name : List Char) : List Char :=
  match name.reverse.span (· != '.') with
  | (_, '.' :: before) => if before.isEmpty then name else before.reverse
  | _ => name

/-- The path with its file's extension replaced by `ext` (given without the dot).  A path that
    does not end in a name stays as it is. -/
def withExtension (p : Path) (ext : String) : Path :=
  match p.fileName?, p.body with
  | some name, (rooted, segs) =>
    let front := unsplit (segs.dropLast ++ [stem name.toList ++ '.' :: ext.toList])
    ⟨String.ofList (if rooted then '/' :: front else front)⟩
  | none, _ => p

end Path

end GameInstaller
