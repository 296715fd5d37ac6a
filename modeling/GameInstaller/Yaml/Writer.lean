import GameInstaller.Text.Hex
import GameInstaller.Yaml.Chars
import GameInstaller.Yaml.Plain

/-! # Writing texts in YAML

How a text is written as the value of an entry of a block mapping.  A text with line feeds becomes
a literal block; one that would read as another type is put in single quotes; all others are plain
unless something in them would be misread, then in single quotes, or in double quotes with escapes
where characters need them. -/

namespace GameInstaller.Yaml

namespace Writer

/-- A character that the writer shows as it is. -/
def isShown (c : Char) : Bool :=
  let n := c.toNat
  n = 0x0A || (0x20 ≤ n && n ≤ 0x7E) || (0xA0 ≤ n && n ≤ 0xD7FF)
    || (0xE000 ≤ n && n ≤ 0xFFFD && n != 0xFEFF) || 0x10000 ≤ n

/-- What stands in a text that bears on how it may be written. -/
structure Features where
  /-- Something that means structure in a block. -/
  indicator : Bool
  /-- A character that needs an escape. -/
  special : Bool
  lineBreak : Bool
  /-- A space or break at either end. -/
  edge : Bool
  endSpace : Bool
  /-- A break right before a space. -/
  breakSpace : Bool
  /-- A space right before a break. -/
  spaceBreak : Bool

/-- Whether each character, with the one before and the list after it, satisfies `p` somewhere. -/
def anyWithin (p : Option Char → Char → List Char → Bool) : Option Char → List Char → Bool
  | _, [] => false
  | before, c :: r => p before c r || anyWithin p (some c) r

/-- Whether a character means structure where it stands. -/
def isIndicator (before : Option Char) (c : Char) (after : List Char) : Bool :=
  match before with
  | none =>
    "#,[]\x7b\x7d&*!|>'\"%@`".toList.contains c
      || ((c == '?' || c == ':' || c == '-') && atGapOrBreak after)
  | some b => (c == ':' && atGapOrBreak after) || (c == '#' && (isGap b || isBreak b))

/-- The features of a text. -/
def features (cs : List Char) : Features :=
  let marker := ['-', '-', '-'].isPrefixOf cs || ['.', '.', '.'].isPrefixOf cs
  let atEdge (c : Option Char) : Bool := c.any fun c => c == ' ' || isBreak c
  { indicator := marker || anyWithin isIndicator none cs
    special := cs.any fun c => !isShown c
    lineBreak := cs.any isBreak
    edge := atEdge cs.head? || atEdge cs.getLast?
    endSpace := cs.getLast? == some ' '
    breakSpace := anyWithin (fun b c _ => c == ' ' && b.any isBreak) none cs
    spaceBreak := anyWithin (fun b c _ => isBreak c && b == some ' ') none cs }

/-- How a text is written. -/
inductive Style where
  | plain
  | single
  | double
  | literal
  deriving DecidableEq

/-- Whether a plain text would read as something that is no text, or as digits that are just no
    number. -/
def misread (cs : List Char) : Bool :=
  match Plain.value? cs with
  | some (.string _) => Plain.zeroLed cs
  | some _ => true
  | none => false

/-- How a text is written. -/
def styleOf (cs : List Char) : Style :=
  let f := features cs
  let inQuotes : Style := if f.breakSpace || f.spaceBreak || f.special then .double else .single
  if cs.contains '\n' then
    (if f.endSpace || f.spaceBreak || f.special then .double else .literal)
  else if misread cs then inQuotes
  else if f.edge || f.breakSpace || f.spaceBreak || f.special || f.lineBreak || f.indicator then inQuotes
  else .plain

/-- The spaces in front of the lines of a value. -/
def margin : List Char := [' ', ' ', ' ', ' ']

/-- Characters in single quotes; a line after a break starts at the margin.  `broken` says that a
    break was just written. -/
def singleChars (broken : Bool) : List Char → List Char
  | [] => if broken then margin else []
  | c :: r =>
    if isBreak c then c :: singleChars true r
    else
      (if broken then margin else []) ++ (if c = '\'' then ['\'', '\''] else [c]) ++ singleChars false r

/-- The escape of a character in double quotes. -/
def escape (c : Char) : List Char :=
  let hex (letter : Char) (width : Nat) : List Char :=
    '\\' :: letter :: (Text.hexPadded width c.toNat).toList.map Char.toUpper
  match c with
  | '\x00' => ['\\', '0']
  | '\x07' => ['\\', 'a']
  | '\x08' => ['\\', 'b']
  | '\t' => ['\\', 't']
  | '\n' => ['\\', 'n']
  | '\x0b' => ['\\', 'v']
  | '\x0c' => ['\\', 'f']
  | '\r' => ['\\', 'r']
  | '\x1b' => ['\\', 'e']
  | '"' => ['\\', '"']
  | '\\' => ['\\', '\\']
  | '\u0085' => ['\\', 'N']
  | '\u2028' => ['\\', 'L']
  | '\u2029' => ['\\', 'P']
  | c => if c.toNat ≤ 0xFF then hex 'x' 2 else if c.toNat ≤ 0xFFFF then hex 'u' 4 else hex 'U' 8

/-- A character in double quotes. -/
def doubleChar (c : Char) : List Char :=
  if !isShown c || isBreak c || c == '"' || c == '\\' then escape c else [c]

/-- The lines of a literal block. -/
def literalChars (broken : Bool) : List Char → List Char
  | [] => if broken then [] else ['\n']
  | c :: r =>
    if isBreak c then c :: literalChars true r
    else (if broken then margin else []) ++ c :: literalChars false r

/-- The indentation and chomping marks of a literal block. -/
def literalHints (cs : List Char) : List Char :=
  let indent := if startsWith (fun c => c == ' ' || isBreak c) cs then ['2'] else []
  let chomp := match cs.reverse with
    | [] => ['-']
    | c :: r =>
      if !isBreak c then ['-']
      else match r with
        | [] => ['+']
        | d :: _ => if isBreak d then ['+'] else []
  indent ++ chomp

/-- A text as the value of an entry, with the line break that ends it. -/
def entryValue (cs : List Char) : List Char :=
  match styleOf cs with
  | .plain => ' ' :: cs ++ ['\n']
  | .single => ' ' :: '\'' :: singleChars false cs ++ ['\'', '\n']
  | .double => ' ' :: '"' :: cs.flatMap doubleChar ++ ['"', '\n']
  | .literal => ' ' :: '|' :: literalHints cs ++ '\n' :: literalChars true cs

end Writer

end GameInstaller.Yaml
