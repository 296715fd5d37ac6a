import GameInstaller.Yaml.Scalar

/-! # Tokens of YAML

A YAML stream as a sequence of tokens.  Indentation becomes tokens that open and close block
collections, and a colon turns what stands before it on its line into a key: the key token is
placed in front of tokens already read.

* `Token`        the tokens
* `Token.ofText` the tokens of a stream, if it has any -/

namespace GameInstaller.Yaml

/-- A token. -/
inductive Token where
  | streamEnd
  /-- `%YAML` with its two numbers. -/
  | version (major minor : Nat)
  /-- `%TAG` with a handle and what it stands for. -/
  | tagHandle (handle stands : List Char)
  | documentStart
  | documentEnd
  | blockSequence
  | blockMapping
  | blockEnd
  | flowSequence
  | flowSequenceEnd
  | flowMapping
  | flowMappingEnd
  | blockEntry
  | flowEntry
  | key
  | value
  | alias (name : List Char)
  | anchor (name : List Char)
  | tag (handle suffix : List Char)
  | scalar (plain : Bool) (text : List Char)
  deriving DecidableEq, Repr, Inhabited

/-- A place where a key may have started. -/
structure PossibleKey where
  /-- Block layout allows nothing else here. -/
  required : Bool
  /-- How many tokens stand before it. -/
  token : Nat
  index : Nat
  line : Nat
  column : Nat

/-- What was read of a stream so far. -/
structure Scan where
  cursor : Cursor
  tokens : Array Token
  /-- The column of the innermost block; -1 outside of all. -/
  indent : Int
  /-- The columns of the blocks around it. -/
  outer : List Int
  /-- Whether a key may start at the next token. -/
  keyAllowed : Bool
  /-- The possible key of each open flow collection, innermost first, and of the block. -/
  keys : List (Option PossibleKey)

namespace Scan

/-- Before the first character. -/
def start (text : List Char) : Scan :=
  { cursor := ⟨text, 0, 0, 0⟩, tokens := #[], indent := -1, outer := [], keyAllowed := true, keys := [none] }

/-- Whether a flow collection is open. -/
def inFlow (s : Scan) : Bool := 1 < s.keys.length

/-- Add a token at the end. -/
def push (s : Scan) (t : Token) : Scan := { s with tokens := s.tokens.push t }

/-- White space, comments and line breaks up to the next token.  In a block, tabs only separate
    where no key may start, and a new line allows one. -/
def toNextToken : Nat → Scan → Scan
  | 0, s => s
  | fuel + 1, s =>
    let c := if s.cursor.index = 0 && startsWith (· == '\uFEFF') s.cursor.rest then s.cursor.next else s.cursor
    let c := c.skipWhile fun d => d == ' ' || (d == '\t' && (s.inFlow || !s.keyAllowed))
    let c := c.skipComment
    match c.lineBreak with
    | some (_, c) => toNextToken fuel { s with cursor := c, keyAllowed := s.keyAllowed || !s.inFlow }
    | none => { s with cursor := c }

/-- Drop possible keys that cannot be keys any more: a key stays on one line and within 1024
    characters.  A required key must not be dropped. -/
def dropStaleKeys (s : Scan) : Option Scan :=
  let stale (k : PossibleKey) : Bool := k.line < s.cursor.line || k.index + 1024 < s.cursor.index
  if s.keys.any (fun k => k.any fun k => stale k && k.required) then none
  else some { s with keys := s.keys.map fun k => k.filter fun k => !stale k }

/-- Give up the innermost possible key; a required one must not be given up. -/
def removeKey (s : Scan) : Option Scan :=
  match s.keys with
  | some k :: r => if k.required then none else some { s with keys := none :: r }
  | _ => some s

/-- Note that a key may start here. -/
def saveKey (s : Scan) : Option Scan :=
  if s.keyAllowed then
    let c := s.cursor
    let key : PossibleKey :=
      { required := !s.inFlow && s.indent == (c.column : Int), token := s.tokens.size,
        index := c.index, line := c.line, column := c.column }
    s.removeKey.map fun s => { s with keys := some key :: s.keys.drop 1 }
  else some s

/-- Close the blocks that are indented deeper than `column`. -/
def unroll (column : Int) (s : Scan) : Scan :=
  if s.inFlow then s else go s.outer s
where
  go : List Int → Scan → Scan
    | [], s => s
    | n :: r, s =>
      if column < s.indent then go r { s with tokens := s.tokens.push .blockEnd, indent := n, outer := r }
      else s

/-- Open a block at `column` if it is deeper than the innermost one; its token goes in front of the
    token with the given number. -/
def roll (column : Nat) (number : Nat) (t : Token) (s : Scan) : Scan :=
  if s.inFlow then s
  else if s.indent < column then
    { s with tokens := s.tokens.insertIdxIfInBounds number t, indent := column, outer := s.indent :: s.outer }
  else s

/-- Past `n` characters, which are the token `t`. -/
def take (s : Scan) (n : Nat) (t : Token) : Scan :=
  { s with cursor := s.cursor.skip n, tokens := s.tokens.push t }

/-- Past a scalar. -/
def takeScalar (s : Scan) (plain : Bool) (r : ScalarRead) : Scan :=
  { s with cursor := r.after, tokens := s.tokens.push (.scalar plain r.text) }

/-! ## Directives, anchors and tags -/

/-- A number of at most nine digits. -/
def versionNumber (c : Cursor) : Option (Nat × Cursor) :=
  let ds := c.rest.takeWhile Char.isDigit
  if ds.isEmpty || 9 < ds.length then none
  else some (ds.foldl (fun n d => 10 * n + (d.toNat - 48)) 0, c.skip ds.length)

/-- A handle `!`, `!!` or `!word!`; in a directive it has to be one of these. -/
def tagHandle (directive : Bool) (c : Cursor) : Option (List Char × Cursor) :=
  match c.rest with
  | '!' :: r =>
    let word := r.takeWhile isWordChar
    let c := c.skip (1 + word.length)
    match c.rest with
    | '!' :: _ => some ('!' :: word ++ ['!'], c.next)
    | _ => if directive && !word.isEmpty then none else some ('!' :: word, c)
  | _ => none

/-- The bytes of a character written as `%XX` escapes. -/
def uriEscape : Nat → List UInt8 → Cursor → Option (List UInt8 × Cursor)
  | 0, acc, c => some (acc.reverse, c)
  | n + 1, acc, c =>
    match c.rest with
    | '%' :: a :: b :: _ =>
      match Text.hexValue? a, Text.hexValue? b with
      | some x, some y => uriEscape n (UInt8.ofNat (16 * x + y) :: acc) (c.skip 3)
      | _, _ => none
    | _ => none

/-- How many bytes a sequence has by its first one. -/
def uriWidth (b : UInt8) : Option Nat :=
  if b &&& 0x80 = 0 then some 1
  else if b &&& 0xE0 = 0xC0 then some 2
  else if b &&& 0xF0 = 0xE0 then some 3
  else if b &&& 0xF8 = 0xF0 then some 4
  else none

/-- The characters of a tag's URI; `acc` holds what was read, last first. -/
def uriChars (verbatim : Bool) : Nat → List Char → Cursor → Option (List Char × Cursor)
  | 0, acc, c => some (acc.reverse, c)
  | fuel + 1, acc, c =>
    match c.rest with
    | [] => some (acc.reverse, c)
    | d :: _ =>
      if !isUriChar verbatim d then some (acc.reverse, c)
      else if d != '%' then uriChars verbatim fuel (d :: acc) c.next
      else
        match uriEscape 1 [] c with
        | some ([b], _) =>
          match uriWidth b with
          | none => none
          | some w =>
            match uriEscape w [] c with
            | none => none
            | some (bytes, c') =>
              match String.fromUTF8? ⟨bytes.toArray⟩ with
              | none => none
              | some s => uriChars verbatim fuel (s.toList.reverse ++ acc) c'
        | _ => none

/-- The URI of a tag after the characters `head`; it must not be empty in all.  The `!` that `head`
    starts with is not part of it. -/
def tagUri (verbatim : Bool) (head : List Char) (c : Cursor) : Option (List Char × Cursor) :=
  match uriChars verbatim (c.rest.length + 1) [] c with
  | none => none
  | some (cs, c) => if head.isEmpty && cs.isEmpty then none else some (head.drop 1 ++ cs, c)

/-- A directive with the line it stands on. -/
def directive (c : Cursor) : Option (Token × Cursor) :=
  let c := c.next
  let name := c.rest.takeWhile isWordChar
  let c := c.skip name.length
  let parsed : Option (Token × Cursor) :=
    if name.isEmpty || !atGapOrBreak c.rest then none
    else if name == "YAML".toList then
      match versionNumber (c.skipWhile isGap) with
      | none => none
      | some (major, c) =>
        if startsWith (· == '.') c.rest then
          (versionNumber c.next).map fun (minor, c) => (.version major minor, c)
        else none
    else if name == "TAG".toList then
      match tagHandle true (c.skipWhile isGap) with
      | none => none
      | some (handle, c) =>
        if !startsWith isGap c.rest then none
        else match tagUri true [] (c.skipWhile isGap) with
          | none => none
          | some (stands, c) => if atGapOrBreak c.rest then some (.tagHandle handle stands, c) else none
    else none
  match parsed with
  | none => none
  | some (t, c) =>
    let c := (c.skipWhile isGap).skipComment
    if atBreakOrEnd c.rest then some (t, c.skipBreak) else none

/-- The name after `*` or `&`. -/
def anchorName (c : Cursor) : Option (List Char × Cursor) :=
  let c := c.next
  let name := c.rest.takeWhile isWordChar
  let c := c.skip name.length
  let ends := endsOr (fun d => isGap d || isBreak d || "?:,]\x7d%@`".toList.contains d) c.rest
  if name.isEmpty || !ends then none else some (name, c)

/-- A tag. -/
def readTag (inFlow : Bool) (c : Cursor) : Option (Token × Cursor) :=
  let parsed : Option (Token × Cursor) :=
    match c.rest with
    | '!' :: '<' :: _ =>
      match tagUri true [] (c.skip 2) with
      | some (uri, c) => if startsWith (· == '>') c.rest then some (.tag [] uri, c.next) else none
      | none => none
    | _ =>
      match tagHandle false c with
      | none => none
      | some (handle, c) =>
        if 1 < handle.length && handle.getLast? == some '!' then
          (tagUri false [] c).map fun (suffix, c) => (.tag handle suffix, c)
        else
          (tagUri false handle c).map fun (suffix, c) =>
            (if suffix.isEmpty then .tag [] ['!'] else .tag ['!'] suffix, c)
  match parsed with
  | none => none
  | some (t, c) =>
    if atGapOrBreak c.rest || (inFlow && startsWith (· == ',') c.rest) then some (t, c) else none

/-! ## One token after another -/

/-- Close all blocks and give up a possible key, at a directive or document marker. -/
def endDocument (s : Scan) : Option Scan :=
  (s.unroll (-1)).removeKey.map fun s => { s with keyAllowed := false }

/-- The end of the stream. -/
def finish (s : Scan) : Option Scan :=
  s.endDocument.map fun s => s.push .streamEnd

/-- A bracket or brace that opens a flow collection. -/
def openFlow (t : Token) (s : Scan) : Option Scan :=
  s.saveKey.map fun s => { s.take 1 t with keys := none :: s.keys, keyAllowed := true }

/-- A bracket or brace that closes a flow collection. -/
def closeFlow (t : Token) (s : Scan) : Option Scan :=
  s.removeKey.map fun s =>
    { s.take 1 t with keys := if s.inFlow then s.keys.drop 1 else s.keys, keyAllowed := false }

/-- The dash of a block sequence. -/
def blockDash (s : Scan) : Option Scan :=
  let opened : Option Scan :=
    if s.inFlow then some s
    else if s.keyAllowed then some (s.roll s.cursor.column s.tokens.size .blockSequence)
    else none
  (opened.bind removeKey).map fun s => { s.take 1 .blockEntry with keyAllowed := true }

/-- The question mark of a key. -/
def explicitKey (s : Scan) : Option Scan :=
  let opened : Option Scan :=
    if s.inFlow then some s
    else if s.keyAllowed then some (s.roll s.cursor.column s.tokens.size .blockMapping)
    else none
  (opened.bind removeKey).map fun s => { s.take 1 .key with keyAllowed := !s.inFlow }

/-- The colon before a value. -/
def colon (s : Scan) : Option Scan :=
  match s.keys with
  | some k :: r =>
    let s := { s with tokens := s.tokens.insertIdxIfInBounds k.token .key, keys := none :: r }
    let s := s.roll k.column k.token .blockMapping
    some { s.take 1 .value with keyAllowed := false }
  | _ =>
    let opened : Option Scan :=
      if s.inFlow then some s
      else if s.keyAllowed then some (s.roll s.cursor.column s.tokens.size .blockMapping)
      else none
    opened.map fun s => { s.take 1 .value with keyAllowed := !s.inFlow }

/-- An alias or anchor, whose token is made from its name. -/
def named (make : List Char → Token) (s : Scan) : Option Scan :=
  match s.saveKey with
  | none => none
  | some s => (anchorName s.cursor).map fun (name, c) =>
    { s with cursor := c, tokens := s.tokens.push (make name), keyAllowed := false }

/-- Whether a plain scalar may start here. -/
def plainStarts (inFlow : Bool) : List Char → Bool
  | [] => false
  | c :: r =>
    let indicator := "-?:,[]\x7b\x7d#&*!|>'\"%@`".toList.contains c
    (!(isGap c || isBreak c) && !indicator)
      || (c == '-' && !startsWith isGap r)
      || (!inFlow && (c == '?' || c == ':') && !atGapOrBreak r)

/-- The token that starts right here; the flag says that it ends the stream. -/
def act (s : Scan) : Option (Scan × Bool) :=
  let more (r : Option Scan) : Option (Scan × Bool) := r.map fun s => (s, false)
  match s.cursor.rest with
  | [] => s.finish.map fun s => (s, true)
  | c :: r =>
    if s.cursor.column = 0 && c == '%' then
      more <| s.endDocument.bind fun s => (directive s.cursor).map fun (t, c) =>
        { s with cursor := c, tokens := s.tokens.push t }
    else if s.cursor.column = 0 && atMarker (c :: r) then
      more <| s.endDocument.map fun s => s.take 3 (if c == '-' then .documentStart else .documentEnd)
    else if c == '[' then more (s.openFlow .flowSequence)
    else if c == '{' then more (s.openFlow .flowMapping)
    else if c == ']' then more (s.closeFlow .flowSequenceEnd)
    else if c == '}' then more (s.closeFlow .flowMappingEnd)
    else if c == ',' then
      more <| s.removeKey.map fun s => { s.take 1 .flowEntry with keyAllowed := true }
    else if c == '-' && atGapOrBreak r then more s.blockDash
    else if c == '?' && (s.inFlow || atGapOrBreak r) then more s.explicitKey
    else if c == ':' && (s.inFlow || atGapOrBreak r) then more s.colon
    else if c == '*' then more (s.named .alias)
    else if c == '&' then more (s.named .anchor)
    else if c == '!' then
      more <| s.saveKey.bind fun s => (readTag s.inFlow s.cursor).map fun (t, c) =>
        { s with cursor := c, tokens := s.tokens.push t, keyAllowed := false }
    else if (c == '|' || c == '>') && !s.inFlow then
      more <| s.removeKey.bind fun s => (readBlockScalar (c == '|') s.indent s.cursor.next).map fun b =>
        { s.takeScalar false b with keyAllowed := true }
    else if c == '\'' || c == '"' then
      more <| s.saveKey.bind fun s => (readQuoted (c == '\'') s.cursor.next).map fun b =>
        { s.takeScalar false b with keyAllowed := false }
    else if plainStarts s.inFlow (c :: r) then
      more <| s.saveKey.bind fun s => (readPlain s.inFlow s.indent s.cursor).map fun b =>
        { s.takeScalar true b with keyAllowed := b.crossedLine }
    else none

/-- The next token, with the block tokens that come before it; the flag says that it ended the
    stream. -/
def step (s : Scan) : Option (Scan × Bool) :=
  match (s.toNextToken (s.cursor.rest.length + 1)).dropStaleKeys with
  | none => none
  | some s => (s.unroll s.cursor.column).act

/-- All tokens from here on. -/
def run : Nat → Scan → Option (Array Token)
  | 0, _ => none
  | fuel + 1, s =>
    match s.step with
    | none => none
    | some (s, true) => some s.tokens
    | some (s, false) => run fuel s

end Scan

/-- The tokens of a stream. -/
def Token.ofText (text : List Char) : Option (List Token) :=
  if text.all isPrintable then (Scan.run (text.length + 2) (Scan.start text)).map Array.toList
  else none

end GameInstaller.Yaml
