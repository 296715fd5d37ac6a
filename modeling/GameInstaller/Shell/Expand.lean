import GameInstaller.Shell.Arithmetic
import GameInstaller.Shell.Pattern
import GameInstaller.Shell.State
import GameInstaller.Shell.Token
import GameInstaller.Text.Utf8

/-! # Expanding words

The values of parameters and the outputs of scripts are put in their places; what was not quoted is
then split at blanks and matched against the names of files.

* `fields`     the words that words expand to
* `joined`     a word expanded into one text
* `pattern`    a word expanded into a pattern -/

namespace GameInstaller.Shell

/-- What expansion yields, in order. -/
inductive Item where
  | mark (m : Mark)
  /-- There is a word here even when it stays empty. -/
  | presence
  /-- Words end here. -/
  | gap
  deriving Repr

/-- A text in quotes, or not. -/
def marksOf (quoted : Bool) (cs : List Char) : List Item := cs.map fun c => .mark ⟨c, quoted⟩

/-- An expanded value: in quotes it is kept, else split at blanks. -/
def valueItems (quoted : Bool) (text : String) : List Item :=
  if quoted then .presence :: marksOf true text.toList
  else text.toList.map fun c =>
    if [' ', '\t', '\n'].contains c then .gap else .mark ⟨c, false⟩

/-- Items with a gap between each two. -/
def withGaps : List (List Item) → List Item
  | [] => []
  | [x] => x
  | x :: r => x ++ .gap :: withGaps r

/-- The identifier of every process. -/
def processId : Nat := 4242

/-- The value of a parameter that is no list. -/
def State.parameter? (s : State) (name : String) : Option String :=
  match name with
  | "#" => some (toString s.args.length)
  | "?" => some (toString s.status)
  | "$" => some (toString processId)
  | "-" => some ""
  | "!" => some ""
  | "@" => some (" ".intercalate s.args)
  | "*" => some (" ".intercalate s.args)
  | "0" => some s.name
  | name =>
    match name.toNat? with
    | some n => s.args[n - 1]?
    | none => s.valueOf name

/-- The items of a parameter's value. -/
def parameterItems (s : State) (name : String) (quoted : Bool) : List Item :=
  match name, quoted with
  | "@", true => withGaps (s.args.map (valueItems true))
  | "@", false => withGaps (s.args.map (valueItems false))
  | "*", false => withGaps (s.args.map (valueItems false))
  | name, quoted => valueItems quoted ((s.parameter? name).getD "")

/-- An output without the line ends at its end. -/
def dropLineEnds (cs : List Char) : List Char := (cs.reverse.dropWhile (· == '\n')).reverse

/-- What expansion needs: the output of a script. -/
abbrev Capture := List Char → Eval ByteArray

/-- The marks of items. -/
def marks (items : List Item) : Field :=
  items.flatMap fun i => match i with
    | .mark m => [m]
    | .presence => []
    | .gap => [⟨' ', true⟩]

/-- A value without what a pattern covers at its start or end, which is the shortest or the longest
    such part; the whole value when there is none. -/
def trimmed (p : Field) (atEnd longest : Bool) (value : String) : String :=
  let cs := value.toList
  let cut (n : Nat) : List Char × List Char :=
    if atEnd then (cs.drop (cs.length - n), cs.take (cs.length - n)) else (cs.take n, cs.drop n)
  let lengths := List.range (cs.length + 1)
  let lengths := if longest then lengths.reverse else lengths
  match lengths.find? fun n => p.covers (String.ofList (cut n).1) with
  | some n => String.ofList (cut n).2
  | none => value

/-- The value of an expression as text.  What is no expression ends the shell. -/
def expressionValue (text : String) : Eval String := do
  let s ← get
  match arithmetic (fun name => (s.valueOf name).getD "") text.toList with
  | some n => pure (toString n)
  | none =>
    say .complaint (s.name ++ ": 1: arithmetic expression: expecting primary: \"" ++ text
      ++ "\"\n")
    throw (.exit 2)

mutual

/-- The items of a piece of a word. -/
def Piece.items (capture : Capture) (p : Piece) : Eval (List Item) :=
  match p with
  | .text cs quoted => pure (if quoted then .presence :: marksOf true cs else marksOf false cs)
  | .output script quoted => do
    let written ← capture script
    pure (valueItems quoted (String.ofList (dropLineEnds (Text.lossy written).toList)))
  | .parameter name use w quoted => do
    let s ← get
    let value := s.parameter? name
    let blank := (value.getD "").isEmpty
    match use with
    | .value => pure (parameterItems s name quoted)
    | .length => pure (valueItems quoted (toString (value.getD "").length))
    | .orElse orBlank =>
      if value.isNone || (orBlank && blank) then itemsOf capture w
      else pure (parameterItems s name quoted)
    | .ifSet unlessBlank =>
      if value.isNone || (unlessBlank && blank) then pure (valueItems quoted "")
      else itemsOf capture w
    | .trim atEnd longest => do
      let p := marks (← itemsOf capture w)
      pure (valueItems quoted (trimmed p atEnd longest (value.getD "")))
  | .value w quoted => do
    let text := Field.text (marks (← itemsOf capture w))
    pure (valueItems quoted (← expressionValue text))

/-- The items of a word. -/
def itemsOf (capture : Capture) (w : List Piece) : Eval (List Item) :=
  match w with
  | [] => pure []
  -- The arguments in quotes are no word at all when there are none.
  | .text [] true :: .parameter "@" .value more true :: r => do
    let first ← Piece.items capture (.parameter "@" .value more true)
    let rest ← itemsOf capture r
    pure (first ++ rest)
  | p :: r => do
    let first ← p.items capture
    let rest ← itemsOf capture r
    pure (first ++ rest)

end

/-- A word with the home directory in place of the tilde that it starts with. -/
def homeExpanded (home : Option String) (w : Word) : Word :=
  match home, w with
  | some h, [.text ['~'] false] => [.text h.toList true]
  | some h, .text ['~'] false :: .text ['/'] false :: r =>
    .text h.toList true :: .text ['/'] false :: r
  | _, w => w

/-- The fields of items; `cur` is the reversed field under way, if there is one. -/
def fieldsFrom (cur : Option Field) : List Item → List Field
  | [] => (cur.map List.reverse).toList
  | .mark m :: r => fieldsFrom (some (m :: cur.getD [])) r
  | .presence :: r => fieldsFrom (some (cur.getD [])) r
  | .gap :: r => (cur.map List.reverse).toList ++ fieldsFrom none r

/-- A field cut at its slashes. -/
def segmentsOf : Field → List Field
  | [] => [[]]
  | m :: r =>
    match segmentsOf r with
    | [] => [[m]]
    | s :: ss => if m.char = '/' then [] :: s :: ss else (m :: s) :: ss

/-- The paths under `dir` that segments of a pattern cover. -/
def matching (d : Disk) (dir : String) : List Field → List String
  | [] => []
  | seg :: rest =>
    let names : List String :=
      if seg.isPattern then
        match d.resolve .follow ⟨if dir.isEmpty then "." else dir⟩ with
        | .ok r =>
          let found := (d.children r.location).filter fun n =>
            seg.covers n && (!n.startsWith "." || seg.head?.map (·.char) == some '.')
          found.mergeSort fun a b => a ≤ b
        | .error _ => []
      else [seg.text]
    if rest.isEmpty then (names.map (dir ++ ·)).filter fun p => d.pathExists ⟨p⟩
    else names.flatMap fun n => matching d (dir ++ n ++ "/") rest

/-- The names that a field stands for: the files that it covers if it is a pattern, else, or if
    there are none, its text. -/
def fieldNames (d : Disk) (f : Field) : List String :=
  if f.isPattern then
    match matching d "" (segmentsOf f) with
    | [] => [f.text]
    | names => names
  else [f.text]

/-- The words that a word expands to. -/
def fields (capture : Capture) (w : Word) : Eval (List String) := do
  let items ← itemsOf capture (homeExpanded ((← get).valueOf "HOME") w)
  let d := (← get).disk
  pure ((fieldsFrom none items).flatMap (fieldNames d))

/-- The words that words expand to. -/
def allFields (capture : Capture) : List Word → Eval (List String)
  | [] => pure []
  | w :: r => do
    let first ← fields capture w
    pure (first ++ (← allFields capture r))

/-- A word expanded into a pattern. -/
def pattern (capture : Capture) (w : Word) : Eval Field := do
  pure (marks (← itemsOf capture (homeExpanded ((← get).valueOf "HOME") w)))

/-- A word expanded into one text. -/
def joined (capture : Capture) (w : Word) : Eval String := do
  pure (Field.text (← pattern capture w))

end GameInstaller.Shell
