import GameInstaller.Text.Hex

/-! # Texts in TOML

The four forms of a text: basic (`"…"`, with escapes) and literal (`'…'`, without), each on one
line or over several (three quotes).  A text is written in the first form that needs no escape
beyond the one for a tab, and only when there is none in basic form with escapes.

* `encode`    the written form of a text
* `readText`  the text that a written form starts with -/

namespace GameInstaller.Toml

/-- What is left of the input after a part of it was read; nothing when it could not be read. -/
abbrev Step (α : Type) := Option (α × List Char)

/-- A control character other than a tab or newline. -/
def isControl (c : Char) : Bool :=
  (c.toNat < 0x20 && c != '\t' && c != '\n') || c.toNat == 0x7F

/-- The longest run of a character. -/
def longestRun (q : Char) (cs : List Char) : Nat :=
  (cs.foldl (fun (best, cur) c => if c = q then (max best (cur + 1), cur + 1) else (best, 0)) (0, 0)).1

/-! ## Writing -/

/-- A character in a basic text; line breaks stay as they are where `multi` lines are allowed. -/
def escapeChar (multi : Bool) (c : Char) : List Char :=
  match c with
  | '\x08' => ['\\', 'b']
  | '\t' => ['\\', 't']
  | '\n' => if multi then ['\n'] else ['\\', 'n']
  | '\x0c' => ['\\', 'f']
  | '\r' => ['\\', 'r']
  | '\\' => ['\\', '\\']
  | c => if isControl c then '\\' :: 'u' :: (Text.hexPadded 4 c.toNat).toList.map Char.toUpper else [c]

/-- The characters of a basic text.  `limit` is how many quotes may follow each other unescaped,
    `run` how many just did. -/
def escapeChars (multi : Bool) (limit : Nat) : Nat → List Char → List Char
  | _, [] => []
  | run, c :: r =>
    if c = '"' then
      if run < limit then '"' :: escapeChars multi limit (run + 1) r
      else '\\' :: '"' :: escapeChars multi limit 0 r
    else escapeChar multi c ++ escapeChars multi limit 0 r

/-- Three of a quote. -/
def triple (q : Char) : List Char := [q, q, q]

/-- The line break after an opening triple of quotes, which is not part of the text. -/
def opening (cs : List Char) : List Char := if cs.contains '\n' then ['\n'] else []

/-- The written form of a text. -/
def encodeChars (cs : List Char) : List Char :=
  let control := cs.any isControl
  let backslash := cs.contains '\\'
  let newline := cs.contains '\n'
  if !control && !backslash && !cs.contains '"' && !newline then
    '"' :: escapeChars false 0 0 cs ++ ['"']
  else if !control && !cs.contains '\'' && !newline then '\'' :: cs ++ ['\'']
  else if !control && !backslash && longestRun '"' cs ≤ 2 then
    triple '"' ++ opening cs ++ escapeChars true 2 0 cs ++ triple '"'
  else if !control && longestRun '\'' cs ≤ 2 then triple '\'' ++ opening cs ++ cs ++ triple '\''
  else if newline then triple '"' ++ opening cs ++ escapeChars true 2 0 cs ++ triple '"'
  else '"' :: escapeChars false 0 0 cs ++ ['"']

/-- The written form of a text. -/
def encode (s : String) : String := String.ofList (encodeChars s.toList)

/-! ## Reading -/

/-- Whether a character may stand in a text as it is. -/
def isPlain (c : Char) : Bool := c == '\t' || (0x20 ≤ c.toNat && c.toNat != 0x7F)

/-- Past a line break. -/
def newline? : List Char → Option (List Char)
  | '\n' :: r => some r
  | '\r' :: '\n' :: r => some r
  | _ => none

/-- The value of hexadecimal digits, all of them. -/
def hexNumber? (ds : List Char) : Option Nat :=
  ds.foldl (fun acc d => acc.bind fun n => (Text.hexValue? d).map (16 * n + ·)) (some 0)

/-- The character that a code point of `n` digits names. -/
def codePoint (n : Nat) (cs : List Char) : Step Char :=
  let ds := cs.take n
  if ds.length < n then none
  else match hexNumber? ds with
    | none => none
    | some v =>
      if v < 0xD800 ∨ (0xE000 ≤ v ∧ v < 0x110000) then some (Char.ofNat v, cs.drop n) else none

/-- The character a backslash stands before. -/
def escape : List Char → Step Char
  | 'b' :: r => some ('\x08', r)
  | 't' :: r => some ('\t', r)
  | 'n' :: r => some ('\n', r)
  | 'f' :: r => some ('\x0c', r)
  | 'r' :: r => some ('\r', r)
  | '"' :: r => some ('"', r)
  | '\\' :: r => some ('\\', r)
  | 'u' :: r => codePoint 4 r
  | 'U' :: r => codePoint 8 r
  | _ => none

/-- Past spaces, tabs and line breaks. -/
def skipBlank : Nat → List Char → List Char
  | 0, cs => cs
  | fuel + 1, cs =>
    match cs with
    | ' ' :: r => skipBlank fuel r
    | '\t' :: r => skipBlank fuel r
    | _ =>
      match newline? cs with
      | some r => skipBlank fuel r
      | none => cs

/-- Past an escaped line break: spaces and tabs, the break, and all white space after it. -/
def escapedBreak? (cs : List Char) : Option (List Char) :=
  (newline? (cs.dropWhile fun c => c == ' ' || c == '\t')).map fun r => skipBlank (r.length + 1) r

/-- How many of a quote stand in front, and what follows them. -/
def quoteRun (q : Char) (cs : List Char) : Nat × List Char :=
  ((cs.takeWhile (· == q)).length, cs.dropWhile (· == q))

/-- The rest of a basic text on one line; `acc` is what was read, last first. -/
def basicBody : Nat → List Char → List Char → Step (List Char)
  | 0, _, _ => none
  | fuel + 1, acc, cs =>
    match cs with
    | [] => none
    | '"' :: r => some (acc.reverse, r)
    | '\\' :: r =>
      match escape r with
      | some (c, r) => basicBody fuel (c :: acc) r
      | none => none
    | c :: r => if isPlain c then basicBody fuel (c :: acc) r else none

/-- The rest of a literal text on one line. -/
def literalBody : List Char → List Char → Step (List Char)
  | _, [] => none
  | acc, c :: r =>
    if c = '\'' then some (acc.reverse, r)
    else if isPlain c then literalBody (c :: acc) r else none

/-- The rest of a text over several lines between triples of `q`; at the end up to two more quotes
    belong to the text. -/
def multiBody (q : Char) : Nat → List Char → List Char → Step (List Char)
  | 0, _, _ => none
  | fuel + 1, acc, cs =>
    match cs with
    | [] => none
    | c :: r =>
      if c = q then
        let (n, rest) := quoteRun q cs
        if n < 3 then multiBody q fuel (List.replicate n q ++ acc) rest
        else if 5 < n then none
        else some ((List.replicate (n - 3) q ++ acc).reverse, rest)
      else match newline? cs with
        | some r => multiBody q fuel ('\n' :: acc) r
        | none =>
          if c = '\\' && q == '"' then
            match escapedBreak? r with
            | some r => multiBody q fuel acc r
            | none =>
              match escape r with
              | some (c, r) => multiBody q fuel (c :: acc) r
              | none => none
          else if isPlain c then multiBody q fuel (c :: acc) r else none

/-- Past the line break right after an opening triple of quotes. -/
def dropOpening (cs : List Char) : List Char := (newline? cs).getD cs

/-- The text on one line that stands here: a basic or a literal one. -/
def readLineText : List Char → Step (List Char)
  | '"' :: r => basicBody (r.length + 1) [] r
  | '\'' :: r => literalBody [] r
  | _ => none

/-- The text that stands here, in any form. -/
def readText : List Char → Step (List Char)
  | '"' :: '"' :: '"' :: r => let r := dropOpening r; multiBody '"' (r.length + 1) [] r
  | '\'' :: '\'' :: '\'' :: r => let r := dropOpening r; multiBody '\'' (r.length + 1) [] r
  | cs => readLineText cs

end GameInstaller.Toml
