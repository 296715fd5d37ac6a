import GameInstaller.Text.Hex
import GameInstaller.Yaml.Chars

/-! # Scalars of YAML

How the three kinds of scalars are read: block scalars (`|`, `>`), quoted scalars and plain ones.
Each reader takes the place right where the scalar starts and gives the scalar's text and the place
after it.  Single line breaks between words fold into a space; of several, the first is dropped. -/

namespace GameInstaller.Yaml

/-- A scalar as read. -/
structure ScalarRead where
  text : List Char
  after : Cursor
  /-- Whether the scalar ended after line breaks that belong to it no more. -/
  crossedLine : Bool := false

/-- White space inside a scalar: blanks on the same line, or the first break and those after it. -/
structure Gap where
  blanks : List Char := []
  firstBreak : List Char := []
  moreBreaks : List Char := []
  crossed : Bool := false

/-- What a gap between two words stands for. -/
def Gap.fold (g : Gap) : List Char :=
  if g.crossed then
    if g.firstBreak == ['\n'] then (if g.moreBreaks.isEmpty then [' '] else g.moreBreaks)
    else g.firstBreak ++ g.moreBreaks
  else g.blanks

/-- Read spaces, tabs and line breaks.  A tab left of `indent` on a later line is refused; a scalar
    in quotes gives no indent. -/
def readGap (indent : Option Int) : Nat → Gap → Cursor → Option (Gap × Cursor)
  | 0, g, c => some (g, c)
  | fuel + 1, g, c =>
    match c.rest with
    | [] => some (g, c)
    | d :: _ =>
      if isGap d then
        if g.crossed then
          if d == '\t' && indent.any (fun n => (c.column : Int) < n) then none
          else readGap indent fuel g c.next
        else readGap indent fuel { g with blanks := g.blanks ++ [d] } c.next
      else match c.lineBreak with
        | some (b, c') =>
          if g.crossed then readGap indent fuel { g with moreBreaks := g.moreBreaks ++ b } c'
          else readGap indent fuel { g with blanks := [], firstBreak := b, crossed := true } c'
        | none => some (g, c)

/-! ## Block scalars -/

/-- What happens to the line breaks that end a block scalar. -/
inductive Chomping where
  | strip
  | clip
  | keep
  deriving DecidableEq

/-- The indicators after `|` or `>`: chomping and indentation, in either order. -/
def blockHeader (c : Cursor) : Option (Chomping × Nat × Cursor) :=
  let chomping (c : Cursor) : Chomping × Cursor := match c.rest with
    | '+' :: _ => (.keep, c.next)
    | '-' :: _ => (.strip, c.next)
    | _ => (.clip, c)
  let digit (c : Cursor) : Option (Nat × Cursor) := match c.rest with
    | d :: _ =>
      if d == '0' then none
      else if '1' ≤ d && d ≤ '9' then some (d.toNat - 48, c.next)
      else some (0, c)
    | [] => some (0, c)
  let header : Option (Chomping × Nat × Cursor) :=
    match chomping c with
    | (.clip, _) =>
      match digit c with
      | none => none
      | some (0, c) => some (.clip, 0, c)
      | some (n, c) => let (ch, c) := chomping c; some (ch, n, c)
    | (ch, c) => (digit c).map fun (n, c) => (ch, n, c)
  match header with
  | none => none
  | some (ch, n, c) =>
    let c := (c.skipWhile isGap).skipComment
    if atBreakOrEnd c.rest then some (ch, n, c.skipBreak) else none

/-- Indentation and line breaks before a line of a block scalar.  `indent` is 0 while it is not
    known; `widest` is the widest line seen so far. -/
def blockBreaks (indent : Nat) : Nat → Nat → List Char → Cursor → Option (Nat × List Char × Cursor)
  | 0, widest, breaks, c => some (widest, breaks, c)
  | fuel + 1, widest, breaks, c =>
    let c := if indent = 0 then c.skipWhile (· == ' ')
      else c.skip (min (indent - c.column) (c.rest.takeWhile (· == ' ')).length)
    let widest := max widest c.column
    if (indent = 0 || c.column < indent) && startsWith (· == '\t') c.rest then none
    else match c.lineBreak with
      | some (b, c') => blockBreaks indent fuel widest (breaks ++ b) c'
      | none => some (widest, breaks, c)

/-- The lines of a block scalar from one of them on.  `leading` is the break before it, `breaks`
    those that follow that one, `leadingGap` whether the line before started with a blank; `acc`
    holds what was read, in pieces, last first. -/
def blockLines (literal : Bool) (indent : Nat) :
    Nat → List (List Char) → List Char → List Char → Bool → Cursor →
      Option (List (List Char) × List Char × List Char × Cursor)
  | 0, acc, leading, breaks, _, c => some (acc, leading, breaks, c)
  | fuel + 1, acc, leading, breaks, leadingGap, c =>
    if c.column = indent && !c.rest.isEmpty then
      let gap := startsWith isGap c.rest
      let joint :=
        if !literal && leading == ['\n'] && !leadingGap && !gap then
          (if breaks.isEmpty then [' '] else breaks)
        else leading ++ breaks
      let line := c.rest.takeWhile fun d => !isBreak d
      let c := c.skip line.length
      let (leading, c) := c.lineBreak.getD ([], c)
      match blockBreaks indent (c.rest.length + 1) 0 [] c with
      | none => none
      | some (_, breaks, c) => blockLines literal indent fuel (line :: joint :: acc) leading breaks gap c
    else some (acc, leading, breaks, c)

/-- A block scalar after its `|` or `>`, inside a block indented by `parent`. -/
def readBlockScalar (literal : Bool) (parent : Int) (c : Cursor) : Option ScalarRead :=
  match blockHeader c with
  | none => none
  | some (chomping, increment, c) =>
    let given : Nat := if increment = 0 then 0 else if 0 ≤ parent then parent.toNat + increment else increment
    match blockBreaks given (c.rest.length + 1) 0 [] c with
    | none => none
    | some (widest, breaks, c) =>
      let indent := if given ≠ 0 then given else max (max widest (parent + 1).toNat) 1
      match blockLines literal indent (c.rest.length + 1) [] [] breaks false c with
      | none => none
      | some (acc, leading, breaks, c) =>
        let body := acc.reverse.flatten
        let tail := match chomping with
          | .strip => []
          | .clip => leading
          | .keep => leading ++ breaks
        some { text := body ++ tail, after := c }

/-! ## Quoted scalars -/

/-- The character a one-letter escape stands for. -/
def escapeLetter : Char → Option Char
  | '0' => some '\x00'
  | 'a' => some '\x07'
  | 'b' => some '\x08'
  | 't' => some '\t'
  | '\t' => some '\t'
  | 'n' => some '\n'
  | 'v' => some '\x0b'
  | 'f' => some '\x0c'
  | 'r' => some '\r'
  | 'e' => some '\x1b'
  | ' ' => some ' '
  | '"' => some '"'
  | '/' => some '/'
  | '\\' => some '\\'
  | 'N' => some '\u0085'
  | '_' => some '\u00a0'
  | 'L' => some '\u2028'
  | 'P' => some '\u2029'
  | _ => none

/-- How many hexadecimal digits follow an escape letter. -/
def escapeDigits : Char → Option Nat
  | 'x' => some 2
  | 'u' => some 4
  | 'U' => some 8
  | _ => none

/-- The value of a list of hexadecimal digits. -/
def hexNumber? (ds : List Char) : Option Nat :=
  ds.foldl (fun acc d => acc.bind fun n => (Text.hexValue? d).map fun v => 16 * n + v) (some 0)

/-- An escape after its backslash. -/
def readEscape (c : Cursor) : Option (Char × Cursor) :=
  match c.rest with
  | [] => none
  | d :: r =>
    match escapeDigits d with
    | none => (escapeLetter d).map fun e => (e, c.next)
    | some n =>
      let ds := r.take n
      if ds.length < n then none
      else match hexNumber? ds with
        | none => none
        | some v =>
          if (0xD800 ≤ v ∧ v ≤ 0xDFFF) ∨ 0x10FFFF < v then none
          else some (Char.ofNat v, c.skip (n + 1))

/-- The characters of a word inside quotes, up to white space, the closing quote or an escaped line
    break; `acc` is what was read, last first.  The flag says that an escaped break ended it. -/
def quotedWord (single : Bool) : Nat → List Char → Cursor → Option (List Char × Bool × Cursor)
  | 0, acc, c => some (acc, false, c)
  | fuel + 1, acc, c =>
    match c.rest with
    | [] => some (acc, false, c)
    | d :: r =>
      if isGap d || isBreak d then some (acc, false, c)
      else if single && d == '\'' && startsWith (· == '\'') r then quotedWord single fuel ('\'' :: acc) (c.skip 2)
      else if d == (if single then '\'' else '"') then some (acc, false, c)
      else if !single && d == '\\' then
        if startsWith isBreak r then some (acc, true, c.next.skipBreak)
        else match readEscape c.next with
          | none => none
          | some (e, c') => quotedWord single fuel (e :: acc) c'
      else quotedWord single fuel (d :: acc) c.next

/-- The words of a quoted scalar up to its closing quote. -/
def quotedWords (single : Bool) : Nat → List Char → Cursor → Option ScalarRead
  | 0, _, _ => none
  | fuel + 1, acc, c =>
    if c.column = 0 && atMarker c.rest then none
    else if c.rest.isEmpty then none
    else match quotedWord single (c.rest.length + 1) acc c with
      | none => none
      | some (acc, escapedBreak, c) =>
        if startsWith (· == (if single then '\'' else '"')) c.rest then
          some { text := acc.reverse, after := c.next }
        else
          let start : Gap := { crossed := escapedBreak }
          match readGap none (c.rest.length + 1) start c with
          | none => none
          | some (g, c) => quotedWords single fuel (g.fold.reverse ++ acc) c

/-- A quoted scalar after its opening quote. -/
def readQuoted (single : Bool) (c : Cursor) : Option ScalarRead :=
  quotedWords single (c.rest.length + 1) [] c

/-! ## Plain scalars -/

/-- Whether a character ends a plain scalar in a flow collection. -/
def isFlowIndicator (c : Char) : Bool := c == ',' || c == '[' || c == ']' || c == '{' || c == '}'

/-- The characters of a word of a plain scalar; `acc` is what was read, last first. -/
def plainWord (inFlow : Bool) : Nat → List Char → Cursor → Option (List Char × Cursor)
  | 0, acc, c => some (acc, c)
  | fuel + 1, acc, c =>
    match c.rest with
    | [] => some (acc, c)
    | d :: r =>
      if isGap d || isBreak d then some (acc, c)
      else if inFlow && d == ':' && startsWith (fun e => isFlowIndicator e || e == '?') r then none
      else if (d == ':' && atGapOrBreak r) || (inFlow && isFlowIndicator d) then some (acc, c)
      else plainWord inFlow fuel (d :: acc) c.next

/-- The words of a plain scalar.  `gap` is the white space before the next word. -/
def plainWords (inFlow : Bool) (indent : Int) : Nat → List Char → Gap → Cursor → Option ScalarRead
  | 0, acc, gap, c => some { text := acc.reverse, after := c, crossedLine := gap.crossed }
  | fuel + 1, acc, gap, c =>
    let stop : Option ScalarRead := some { text := acc.reverse, after := c, crossedLine := gap.crossed }
    if (c.column = 0 && atMarker c.rest) || startsWith (· == '#') c.rest then stop
    else match plainWord inFlow (c.rest.length + 1) [] c with
      | none => none
      | some (word, c') =>
        let acc := if word.isEmpty then acc else word ++ gap.fold.reverse ++ acc
        let gap := if word.isEmpty then gap else {}
        let stop : Option ScalarRead := some { text := acc.reverse, after := c', crossedLine := gap.crossed }
        if !startsWith (fun d => isGap d || isBreak d) c'.rest then stop
        else match readGap (some indent) (c'.rest.length + 1) gap c' with
          | none => none
          | some (gap, c'') =>
            if !inFlow && (c''.column : Int) < indent then
              some { text := acc.reverse, after := c'', crossedLine := gap.crossed }
            else plainWords inFlow indent fuel acc gap c''

/-- A plain scalar inside a block indented by `parent`. -/
def readPlain (inFlow : Bool) (parent : Int) (c : Cursor) : Option ScalarRead :=
  plainWords inFlow (parent + 1) (c.rest.length + 1) [] {} c

end GameInstaller.Yaml
