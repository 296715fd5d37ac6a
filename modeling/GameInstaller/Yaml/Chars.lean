/-! # Character classes of YAML

The classes that the grammar of YAML is written in, over a list of characters that may end. -/

namespace GameInstaller.Yaml

/-- Whether a character may stand in a YAML stream at all. -/
def isPrintable (c : Char) : Bool :=
  let n := c.toNat
  n = 0x09 || n = 0x0A || n = 0x0D || (0x20 ≤ n && n ≤ 0x7E) || n = 0x85
    || (0xA0 ≤ n && n ≤ 0xD7FF) || (0xE000 ≤ n && n ≤ 0xFFFD) || 0x10000 ≤ n

/-- A line break: line feed, carriage return, next line, line or paragraph separator. -/
def isBreak (c : Char) : Bool :=
  c == '\n' || c == '\r' || c == '\u0085' || c == '\u2028' || c == '\u2029'

/-- A space or a tab. -/
def isGap (c : Char) : Bool := c == ' ' || c == '\t'

/-- A character of an anchor, a tag handle or a directive name. -/
def isWordChar (c : Char) : Bool := c.isAlphanum || c == '_' || c == '-'

/-- Whether the input ends here or goes on with a character of a class. -/
def endsOr (p : Char → Bool) : List Char → Bool
  | [] => true
  | c :: _ => p c

/-- Whether the input goes on with a character of a class. -/
def startsWith (p : Char → Bool) : List Char → Bool
  | [] => false
  | c :: _ => p c

/-- End of input, a line break, a space or a tab. -/
def atGapOrBreak : List Char → Bool := endsOr fun c => isGap c || isBreak c

/-- End of input or a line break. -/
def atBreakOrEnd : List Char → Bool := endsOr isBreak

/-- Whether a document marker (`---` or `...`) stands here. -/
def atMarker : List Char → Bool
  | '-' :: '-' :: '-' :: r => atGapOrBreak r
  | '.' :: '.' :: '.' :: r => atGapOrBreak r
  | _ => false

/-- A character of the URI of a tag; inside `<…>` the flow indicators may stand too. -/
def isUriChar (verbatim : Bool) (c : Char) : Bool :=
  isWordChar c || ";/?:@&=+$.%!~*'()".toList.contains c || (verbatim && ",[]".toList.contains c)

/-! ## A place in a YAML stream

The input that is left, with the place it starts at.  A carriage return and line feed together are
one line break. -/

/-- A place in the input: what is left, and how much came before it. -/
structure Cursor where
  rest : List Char
  index : Nat
  line : Nat
  column : Nat
  deriving Inhabited

namespace Cursor

/-- Past one character that is no line break. -/
def next (c : Cursor) : Cursor :=
  ⟨c.rest.drop 1, c.index + 1, c.line, c.column + 1⟩

/-- Past `n` characters that are no line breaks. -/
def skip (c : Cursor) (n : Nat) : Cursor :=
  ⟨c.rest.drop n, c.index + n, c.line, c.column + n⟩

/-- Past the longest run of characters of a class (one without line breaks). -/
def skipWhile (c : Cursor) (p : Char → Bool) : Cursor :=
  c.skip (c.rest.takeWhile p).length

/-- Past a line break, with the text that the break stands for: a separator keeps its own
    character, all others become a line feed. -/
def lineBreak (c : Cursor) : Option (List Char × Cursor) :=
  match c.rest with
  | '\r' :: '\n' :: r => some (['\n'], ⟨r, c.index + 2, c.line + 1, 0⟩)
  | d :: r =>
    if isBreak d then
      some ([if d == '\u2028' || d == '\u2029' then d else '\n'], ⟨r, c.index + 1, c.line + 1, 0⟩)
    else none
  | [] => none

/-- Past a line break, if one is here. -/
def skipBreak (c : Cursor) : Cursor :=
  match c.lineBreak with
  | some (_, c) => c
  | none => c

/-- Past the rest of the line, up to its break. -/
def skipLine (c : Cursor) : Cursor :=
  c.skipWhile fun d => !isBreak d

/-- Past a comment, if one is here. -/
def skipComment (c : Cursor) : Cursor :=
  if startsWith (· == '#') c.rest then c.skipLine else c

end Cursor

end GameInstaller.Yaml
