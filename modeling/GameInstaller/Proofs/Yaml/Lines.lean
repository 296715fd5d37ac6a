import GameInstaller.Proofs.Yaml.Words

/-!
# Lines of a YAML stream

A stream is written line by line: a key at a column, a dash before it where it starts an item, and behind
it a plain word, a text in quotes or nothing.  Its tokens are those of the lines, with blocks opened
where a line starts deeper than those before it, and closed where one starts less deep.

* `Blocks`       the tokens so far, and the columns of the blocks that are open
* `Scan.Leads`   in so many steps the scanner gets from one state to another
* `Line`         a line of a stream
* `Line.blocks`  what a line adds
* `Line.text`    the text of lines

## Key results

- `Scan.Leads.line`: the scanner reads a line
- `Token.ofText_lines`: the tokens of lines
-/

namespace GameInstaller.Yaml

/-! ## Blocks -/

/-- The tokens of a stream so far, and the columns of its open blocks, innermost first. -/
structure Blocks where
  tokens : List Token
  columns : List Nat

namespace Blocks

/-- The column of the innermost block. -/
def innermost : List Nat → Int
  | [] => -1
  | n :: _ => n

/-- The columns of the blocks around it. -/
def around : List Nat → List Int
  | [] => []
  | _ :: columns => innermost columns :: around columns

/-- Blocks that are deeper than a column are closed. -/
def closeAll (column : Int) : List Nat → List Token → Blocks
  | [], tokens => ⟨tokens, []⟩
  | n :: columns, tokens =>
    if column < n then closeAll column columns (tokens ++ [.blockEnd]) else ⟨tokens, n :: columns⟩

def close (column : Int) (b : Blocks) : Blocks := closeAll column b.columns b.tokens

/-- A block is opened at a column, unless it is that of the innermost block. -/
def enter (column : Nat) (t : Token) (b : Blocks) : Blocks :=
  if innermost b.columns < column then ⟨b.tokens ++ [t], column :: b.columns⟩ else b

def push (ts : List Token) (b : Blocks) : Blocks := { b with tokens := b.tokens ++ ts }

@[simp] theorem columns_push (ts : List Token) (b : Blocks) : (b.push ts).columns = b.columns := rfl

@[simp] theorem push_nil (b : Blocks) : b.push [] = b := by
  simp [push]

@[simp] theorem push_push (ts ts' : List Token) (b : Blocks) :
    (b.push ts).push ts' = b.push (ts ++ ts') := by
  simp [push]

theorem innermost_closeAll {column : Int} (h : -1 ≤ column) (columns : List Nat) (tokens : List Token) :
    innermost (closeAll column columns tokens).columns ≤ column := by
  induction columns generalizing tokens with
  | nil => exact h
  | cons n columns ih =>
    rw [closeAll]
    split
    · exact ih _
    · rename_i hdeep
      exact Int.not_lt.mp hdeep

theorem innermost_close (column : Nat) (b : Blocks) :
    innermost (b.close column).columns ≤ column :=
  innermost_closeAll (by omega) _ _

theorem close_of_le {column : Int} {b : Blocks} (h : innermost b.columns ≤ column) : b.close column = b := by
  obtain ⟨tokens, columns⟩ := b
  cases columns with
  | nil => rfl
  | cons n columns => exact if_neg (Int.not_lt.mpr h)

theorem innermost_enter {column : Nat} {b : Blocks} (h : innermost b.columns ≤ column) (t : Token) :
    innermost (b.enter column t).columns = column := by
  unfold enter
  split
  · rfl
  · omega

end Blocks

/-! ## Keys -/

/-- A word that may be a key: it is short, and no marker starts as it does. -/
structure IsKey (w : List Char) : Prop where
  word : IsWord w
  short : w.length ≤ 1024
  unmarked : w.head? ≠ some '-' ∧ w.head? ≠ some '.'

theorem isKey_iff {w : List Char} :
    IsKey w ↔ IsWord w ∧ w.length ≤ 1024 ∧ w.head? ≠ some '-' ∧ w.head? ≠ some '.' :=
  ⟨fun h => ⟨h.word, h.short, h.unmarked⟩, fun ⟨hword, hshort, hmark⟩ => ⟨hword, hshort, hmark⟩⟩

instance : DecidablePred IsKey := fun _ => decidable_of_iff _ isKey_iff.symm

theorem IsKey.not_atMarker {w : List Char} (h : IsKey w) (rest : List Char) :
    atMarker (w ++ rest) = false := by
  obtain ⟨c, r, rfl, -⟩ := h.word.start
  obtain ⟨hdash, hdot⟩ := h.unmarked
  simp only [List.head?_cons, ne_eq, Option.some.injEq] at hdash hdot
  rw [List.cons_append]
  unfold atMarker
  split <;> simp_all

/-! ## The scanner among blocks -/

namespace Scan

open Blocks (innermost around)

/-- The scanner at a place of a stream without brackets. -/
def within (c : Cursor) (b : Blocks) (keyAllowed : Bool) (key : Option PossibleKey) : Scan :=
  ⟨c, b.tokens.toArray, innermost b.columns, around b.columns, keyAllowed, [key]⟩

theorem start_eq (text : List Char) : start text = within ⟨text, 0, 0, 0⟩ ⟨[], []⟩ true none := by
  rfl

variable (c : Cursor) (b : Blocks) (keyAllowed : Bool) (key : Option PossibleKey)

theorem inFlow_within : (within c b keyAllowed key).inFlow = false := rfl

theorem unroll_within (column : Int) :
    (within c b keyAllowed key).unroll column = within c (b.close column) keyAllowed key := by
  have hgo (columns : List Nat) (tokens : List Token) :
      unroll.go column (around columns) (within c ⟨tokens, columns⟩ keyAllowed key) =
        within c (Blocks.closeAll column columns tokens) keyAllowed key := by
    induction columns generalizing tokens with
    | nil => rfl
    | cons n columns ih =>
      rw [around, unroll.go, Blocks.closeAll]
      change (if column < (n : Int) then _ else _) = _
      split
      · -- The block is closed by its token, and the ones around it are looked at next.
        rw [← ih]
        congr 1
        simp [within]
      · rfl
  exact hgo b.columns b.tokens

theorem insertIdx_append (front rear : List Token) (t : Token) :
    (front ++ rear).insertIdx front.length t = front ++ t :: rear := by
  induction front with
  | nil => rfl
  | cons t' front ih => simp [ih]

/-- A block is opened in front of the tokens that its first entry has already. -/
theorem roll_within (column : Nat) (t : Token) (rear : List Token) :
    (within c (b.push rear) keyAllowed key).roll column b.tokens.length t =
      within c ((b.enter column t).push rear) keyAllowed key := by
  unfold roll Blocks.enter
  rw [inFlow_within, if_neg (by decide)]
  change (if innermost b.columns < column then _ else _) = _
  split
  · simp [within, Blocks.push, insertIdx_append, around, innermost]
  · rfl

variable {c : Cursor} {b : Blocks} {keyAllowed : Bool} {key : Option PossibleKey}

theorem toNextToken_within (hclear : Clear c.rest) (fuel : Nat) :
    (within c b keyAllowed key).toNextToken (fuel + 1) = within c b keyAllowed key :=
  toNextToken_spaces (m := 0) hclear rfl fuel

/-! ## One step -/

/-- Where a token starts, and no possible key is too far away, the step is that of the token. -/
theorem step_within (hclear : Clear c.rest)
    (hkey : ∀ k ∈ key, c.line ≤ k.line ∧ c.index ≤ k.index + 1024) :
    (within c b keyAllowed key).step = (within c (b.close c.column) keyAllowed key).act := by
  have hfresh : (within c b keyAllowed key).dropStaleKeys = some (within c b keyAllowed key) := by
    cases key with
    | none => rfl
    | some k =>
      obtain ⟨hline, hindex⟩ := hkey k rfl
      simp [dropStaleKeys, within, Nat.not_lt.mpr hline, Nat.not_lt.mpr hindex]
  rw [step, toNextToken_within hclear, hfresh]
  exact congrArg act (unroll_within ..)

/-- A token without a key before it is added behind the others. -/
theorem take_within (n : Nat) (t : Token) : (within c b keyAllowed key).take n t =
    within (c.skip n) (b.push [t]) keyAllowed key := by
  simp [take, within, Blocks.push]

theorem takeScalar_within (plain : Bool) (r : ScalarRead) :
    (within c b keyAllowed key).takeScalar plain r =
      within r.after (b.push [.scalar plain r.text]) keyAllowed key := by
  simp [takeScalar, within, Blocks.push]

theorem act_dash (rest : List Char) (index line column : Nat) :
    (within ⟨'-' :: ' ' :: rest, index, line, column⟩ b true none).act =
      some (within ⟨' ' :: rest, index + 1, line, column + 1⟩
        ((b.enter column .blockSequence).push [.blockEntry]) true none, false) := by
  have hroll := roll_within ⟨'-' :: ' ' :: rest, index, line, column⟩ b true none column
    .blockSequence []
  rw [Blocks.push_nil, Blocks.push_nil, ← List.size_toArray] at hroll
  have hdash : (within ⟨'-' :: ' ' :: rest, index, line, column⟩ b true none).blockDash =
      some (within ⟨' ' :: rest, index + 1, line, column + 1⟩
        ((b.enter column .blockSequence).push [.blockEntry]) true none) := by
    change Option.map _ (removeKey (roll column b.tokens.toArray.size .blockSequence _)) = _
    rw [hroll]
    change some (take _ 1 .blockEntry) = _
    rw [take_within]
    rfl
  have hact : (within ⟨'-' :: ' ' :: rest, index, line, column⟩ b true none).act =
      Option.map (fun s => (s, false))
        (within ⟨'-' :: ' ' :: rest, index, line, column⟩ b true none).blockDash := by
    simp [act, within, atMarker, atGapOrBreak, endsOr, isGap]
  rw [hact, hdash]
  rfl

/-- A word is read as a plain scalar. -/
theorem act_word {w rest : List Char} (hw : IsWord w) {index line column : Nat}
    (hmark : Unmarked (w ++ rest) column) {key' : Option PossibleKey} {r : ScalarRead}
    (hkey : (within ⟨w ++ rest, index, line, column⟩ b keyAllowed key).saveKey =
      some (within ⟨w ++ rest, index, line, column⟩ b keyAllowed key'))
    (hread : readPlain false (innermost b.columns) ⟨w ++ rest, index, line, column⟩ = some r) :
    (within ⟨w ++ rest, index, line, column⟩ b keyAllowed key).act =
      some (within r.after (b.push [.scalar true r.text]) r.crossedLine key', false) := by
  have hact : (within ⟨w ++ rest, index, line, column⟩ b keyAllowed key).act =
      ((within ⟨w ++ rest, index, line, column⟩ b keyAllowed key).saveKey.bind fun s =>
        (readPlain s.inFlow s.indent s.cursor).map fun r =>
          { s.takeScalar true r with keyAllowed := r.crossedLine }).map fun s => (s, false) := by
    obtain ⟨c, w, rfl, hstart⟩ := hw.start
    have hc := hw.plain c List.mem_cons_self
    rcases hstart with hindicator | ⟨rfl, hne⟩
    · simp [isIndicator] at hindicator
      simp [isPlainChar] at hc
      simp [act, within, hindicator, plainStarts, hc]
      exact fun hzero hmarker => absurd hmarker (by simpa using hmark (of_decide_eq_true hzero))
    · -- A dash with something behind it is no item.
      obtain ⟨d, w, rfl⟩ := List.exists_cons_of_ne_nil hne
      have hd := hw.plain d (by simp)
      simp [isPlainChar] at hd
      simp [act, within, plainStarts, atGapOrBreak, endsOr, startsWith, hd]
      exact fun hzero hmarker => absurd hmarker (by simpa using hmark (of_decide_eq_true hzero))
  have hread' : readPlain (within ⟨w ++ rest, index, line, column⟩ b keyAllowed key').inFlow
      (within ⟨w ++ rest, index, line, column⟩ b keyAllowed key').indent
      (within ⟨w ++ rest, index, line, column⟩ b keyAllowed key').cursor = some r := hread
  rw [hact, hkey, Option.bind_some, hread']
  simp [takeScalar_within]
  rfl

theorem saveKey_within : (within c b true none).saveKey =
    some (within c b true
      (some ⟨innermost b.columns == c.column, b.tokens.length, c.index, c.line, c.column⟩)) := rfl

/-- A colon makes what was read since the possible key a key. -/
theorem act_colon {rest : List Char} (hrest : atGapOrBreak rest = true) (rear : List Token)
    (index line column : Nat) (required : Bool) (index' line' column' : Nat) :
    (within ⟨':' :: rest, index, line, column⟩ (b.push rear) false
        (some ⟨required, b.tokens.length, index', line', column'⟩)).act =
      some (within ⟨rest, index + 1, line, column + 1⟩
        ((b.enter column' .blockMapping).push (.key :: rear ++ [.value])) false none, false) := by
  -- The key goes to where it was saved, in front of what was read since.
  have hinsert : (b.push rear).tokens.toArray.insertIdxIfInBounds b.tokens.length .key =
      (b.push (.key :: rear)).tokens.toArray := by
    rw [List.insertIdxIfInBounds_toArray]
    exact congrArg _ (insertIdx_append _ _ _)
  have hroll := roll_within ⟨':' :: rest, index, line, column⟩ b false none column' .blockMapping
    (.key :: rear)
  have hact : (within ⟨':' :: rest, index, line, column⟩ (b.push rear) false
      (some ⟨required, b.tokens.length, index', line', column'⟩)).act =
        ((within ⟨':' :: rest, index, line, column⟩ (b.push rear) false
          (some ⟨required, b.tokens.length, index', line', column'⟩)).colon).map
            fun s => (s, false) := by
    simp [act, within, atMarker, hrest]
  have hcolon : (within ⟨':' :: rest, index, line, column⟩ (b.push rear) false
      (some ⟨required, b.tokens.length, index', line', column'⟩)).colon =
        some { ((within ⟨':' :: rest, index, line, column⟩ (b.push (.key :: rear)) false none).roll
          column' b.tokens.length .blockMapping).take 1 .value with keyAllowed := false } := by
    simp only [colon, within]
    rw [hinsert]
    rfl
  rw [hact, hcolon, hroll, take_within, Blocks.push_push]
  rfl

/-- In `n` steps the scanner gets from one state to another. -/
def Leads (s : Scan) (n : Nat) (s' : Scan) : Prop := ∀ fuel, run (fuel + n) s = run fuel s'

namespace Leads

variable {s s' s'' : Scan} {n m : Nat}

theorem of_step (h : s.step = some (s', false)) : s.Leads 1 s' := fun fuel => by
  rw [run, h]

theorem trans (h : s.Leads n s') (h' : s'.Leads m s'') : s.Leads (n + m) s'' := fun fuel => by
  rw [← h' fuel, ← h (fuel + m)]
  congr 1
  omega

/-- What stands before the next token makes no difference. -/
theorem of_next (h : s.toNextToken (s.cursor.rest.length + 1) = within c b keyAllowed key)
    (hclear : Clear c.rest) : s.Leads 0 (within c b keyAllowed key) := fun fuel => by
  cases fuel with
  | zero => rfl
  | succ fuel => rw [Nat.add_zero, run, run, step, step, h, toNextToken_within hclear]

/-- A space before a token makes no difference. -/
theorem space {rest : List Char} (hclear : Clear rest) (index line column : Nat) :
    Leads (within ⟨' ' :: rest, index, line, column⟩ b keyAllowed key) 0
      (within ⟨rest, index + 1, line, column + 1⟩ b keyAllowed key) := by
  exact of_next (toNextToken_spaces (m := 1) hclear rfl _) hclear

/-- On a new line a key may start. -/
theorem newLine {rest : List Char} (hclear : Clear rest) (n m index line column : Nat) :
    Leads (within ⟨List.replicate (n + 1) '\n' ++ (List.replicate m ' ' ++ rest), index, line, column⟩
        b keyAllowed none) 0
      (within ⟨rest, index + (n + 1) + m, line + (n + 1), m⟩ b true none) := by
  have hfuel : n + 1 < (List.replicate (n + 1) '\n' ++ (List.replicate m ' ' ++ rest)).length + 1 := by
    simp only [List.length_append, List.length_replicate]
    omega
  exact of_next (toNextToken_breaks hclear rfl (Nat.le_refl 1) hfuel) hclear

/-- The dash of an item, and the space behind it. -/
theorem dash {rest : List Char} (hclear : Clear rest) (index line column : Nat) :
    Leads (within ⟨'-' :: ' ' :: rest, index, line, column⟩ b true none) 1
      (within ⟨rest, index + 2, line, column + 2⟩
        (((b.close column).enter column .blockSequence).push [.blockEntry]) true none) := by
  refine (of_step ?_).trans (space hclear (index + 1) line (column + 1))
  rw [step_within (clear_cons (by decide) _) (by simp), act_dash]

/-- A key and its colon. -/
theorem keyColon {w rest : List Char} (hw : IsKey w) (hrest : atGapOrBreak rest = true)
    (index line column : Nat) :
    Leads (within ⟨w ++ ':' :: rest, index, line, column⟩ b true none) 2
      (within ⟨rest, index + w.length + 1, line, column + w.length + 1⟩
        (((b.close column).enter column .blockMapping).push [.key, .scalar true w, .value])
        false none) := by
  have hmark : Unmarked (w ++ ':' :: rest) column := fun _ => hw.not_atMarker _
  -- The colon stands on the line of the word and not too far from its start to make it a key.
  have hshort := hw.short
  have hword : (within ⟨w ++ ':' :: rest, index, line, column⟩ b true none).step =
      some (within ⟨':' :: rest, index + w.length, line, column + w.length⟩
        ((b.close column).push [.scalar true w]) false
        (some ⟨innermost (b.close column).columns == column, (b.close column).tokens.length, index, line,
          column⟩), false) := by
    rw [step_within (hw.word.clear _) (by simp), act_word hw.word hmark saveKey_within
      (readPlain_colon hw.word.ne_nil hw.word.plain hrest hmark _ _ _)]
  have hcolon : (within ⟨':' :: rest, index + w.length, line, column + w.length⟩
      ((b.close column).push [.scalar true w]) false
      (some ⟨innermost (b.close column).columns == column, (b.close column).tokens.length, index, line,
        column⟩)).step =
      some (within ⟨rest, index + w.length + 1, line, column + w.length + 1⟩
        (((b.close column).enter column .blockMapping).push [.key, .scalar true w, .value])
        false none, false) := by
    rw [step_within (clear_cons (by decide) _) (by simp; omega), Blocks.close_of_le, act_colon hrest]
    · rfl
    · have hclosed := Blocks.innermost_close column b
      simp only [Blocks.columns_push]
      omega
  exact (of_step hword).trans (of_step hcolon)

/-- A word behind a colon, with the line breaks and the indentation behind it. -/
theorem plain {w rest : List Char} (hw : IsWord w) (hclear : Clear rest) {m column : Nat}
    (hdeep : innermost b.columns ≤ column) (hless : m ≤ innermost b.columns) (n index line : Nat) :
    Leads (within ⟨' ' :: (w ++ (List.replicate (n + 1) '\n' ++ (List.replicate m ' ' ++ rest))),
        index, line, column⟩ b false none) 1
      (within ⟨rest, index + 1 + w.length + (n + 1) + m, line + (n + 1), m⟩
        (b.push [.scalar true w]) true none) := by
  have hread := readPlain_break hw.ne_nil hw.plain hclear (n := n) (m := m) (column + 1)
    (by simp [Unmarked]) (show (m : Int) < innermost b.columns + 1 by omega) (index + 1) line
  refine (space (hw.clear _) index line column).trans (of_step ?_)
  rw [step_within (hw.clear _) (by simp), Blocks.close_of_le (by simp only; omega),
    act_word hw (by simp [Unmarked]) rfl hread]

/-- A text in quotes behind a colon. -/
theorem quoted {w : List Char} (hw : ∀ c ∈ w, isQuotedChar c = true) (rest : List Char)
    {column : Nat} (hdeep : innermost b.columns ≤ column) (index line : Nat) :
    Leads (within ⟨' ' :: '"' :: (w ++ '"' :: rest), index, line, column⟩ b false none) 1
      (within ⟨rest, index + 2 + w.length + 1, line, column + 2 + w.length + 1⟩
        (b.push [.scalar false w]) false none) := by
  have hread := readQuoted_line hw rest (index + 2) line (show 0 < column + 2 by omega)
  refine (space (clear_cons (by decide) _) index line column).trans (of_step ?_)
  have hact : (within ⟨'"' :: (w ++ '"' :: rest), index + 1, line, column + 1⟩ b false none).act =
      ((readQuoted false ⟨w ++ '"' :: rest, index + 2, line, column + 2⟩).map fun r =>
        { (within ⟨'"' :: (w ++ '"' :: rest), index + 1, line, column + 1⟩ b false none).takeScalar
          false r with keyAllowed := false }).map fun s => (s, false) := by
    simp [act, within, atMarker, saveKey, Cursor.next]
  rw [step_within (clear_cons (by decide) _) (by simp), Blocks.close_of_le (by simp only; omega), hact,
    hread, Option.map_some, takeScalar_within]
  rfl

end Leads

/-- At the end all blocks are closed. -/
theorem run_end (fuel index line column : Nat) :
    run (fuel + 1) (within ⟨[], index, line, column⟩ b true none) =
      some (((b.close column).close (-1)).push [.streamEnd]).tokens.toArray := by
  have hunroll := unroll_within ⟨[], index, line, column⟩ (b.close column) true none (-1)
  have hact : (within ⟨[], index, line, column⟩ (b.close column) true none).act =
      some (push { unroll (-1) (within ⟨[], index, line, column⟩ (b.close column) true none) with
        keyAllowed := false } .streamEnd, true) := by
    change Option.map _ (finish _) = _
    rw [finish, endDocument, hunroll]
    rfl
  rw [run, step_within clear_nil (by simp), hact, hunroll]
  simp [push, within, Blocks.push]

end Scan

/-! ## Lines -/

/-- What stands behind the colon of a line. -/
inductive Content where
  | none
  | plain (text : List Char)
  | quoted (text : List Char)

namespace Content

def chars : Content → List Char
  | none => []
  | plain text => ' ' :: text
  | quoted text => ' ' :: '"' :: (text ++ ['"'])

def tokens : Content → List Token
  | none => []
  | plain text => [.scalar true text]
  | quoted text => [.scalar false text]

/-- A content that is read as it is written, when the next line starts at `next`: a plain word goes on
    where the next line is deeper than the key before the word. -/
def Fits (column next : Nat) : Content → Prop
  | none => True
  | plain text => IsWord text ∧ next ≤ column
  | quoted text => ∀ c ∈ text, isQuotedChar c = true

end Content

/-- A line of a stream: a key at a column, or behind a dash at that column, and what the key has. -/
structure Line where
  column : Nat
  dash : Bool
  key : List Char
  content : Content
  /-- How many empty lines follow. -/
  blank : Nat := 0

namespace Line

/-- The column of the key. -/
def keyColumn (l : Line) : Nat := if l.dash then l.column + 2 else l.column

/-- A line without its indentation. -/
def chars (l : Line) : List Char :=
  (if l.dash then ['-', ' '] else []) ++ (l.key ++ ':' :: l.content.chars)

/-- What a line adds to the blocks before it. -/
def blocks (l : Line) (b : Blocks) : Blocks :=
  let b := if l.dash then ((b.close l.column).enter l.column .blockSequence).push [.blockEntry] else b
  ((b.close l.keyColumn).enter l.keyColumn .blockMapping).push
    ([.key, .scalar true l.key, .value] ++ l.content.tokens)

/-- The column at which lines start. -/
def columnOf : List Line → Nat
  | [] => 0
  | l :: _ => l.column

/-- The text of lines, without the indentation of the first. -/
def text : List Line → List Char
  | [] => []
  | l :: lines =>
    l.chars ++ (List.replicate (l.blank + 1) '\n' ++ (List.replicate (columnOf lines) ' ' ++ text lines))

/-- A line that is read as it is written, when the next one starts at `next`. -/
structure Fits (next : Nat) (l : Line) : Prop where
  key : IsKey l.key
  content : l.content.Fits l.keyColumn next

/-- Lines that all fit before the next ones. -/
def FitAll : List Line → Prop
  | [] => True
  | l :: lines => l.Fits (columnOf lines) ∧ FitAll lines

end Line

theorem clear_text {lines : List Line} (h : Line.FitAll lines) : Clear (Line.text lines) := by
  cases lines with
  | nil => exact clear_nil
  | cons l lines =>
    obtain ⟨column, dash, w, content, blank⟩ := l
    cases dash with
    | false => simpa [Line.text, Line.chars] using h.1.key.word.clear _
    | true => exact clear_cons (by decide) _

/-- What is left of a stream when all its lines were read. -/
def Blocks.done (b : Blocks) : List Token := (((b.close 0).close (-1)).push [.streamEnd]).tokens

namespace Scan.Leads

open Blocks (innermost)

variable {b : Blocks} {rest : List Char} {m : Nat}

/-- The content of a key, up to the next line. -/
theorem content {content : Content} {k : Nat} (hfits : content.Fits k m) (hclear : Clear rest)
    (hb : innermost b.columns = k) (n index line : Nat) {column : Nat} (hcolumn : k ≤ column) :
    ∃ steps ≤ content.chars.length, ∃ index' line', Leads
      (within ⟨content.chars ++ (List.replicate (n + 1) '\n' ++ (List.replicate m ' ' ++ rest)), index,
        line, column⟩ b false none) steps
      (within ⟨rest, index', line', m⟩ (b.push content.tokens) true none) := by
  have hdeep : innermost b.columns ≤ column := by omega
  cases content with
  | none =>
    exact ⟨0, Nat.le_refl 0, _, _, by
      simpa [Content.chars, Content.tokens] using newLine hclear n m index line column⟩
  | plain w =>
    -- Reading the word takes the line break with it.
    obtain ⟨hw, hless⟩ := hfits
    have hword := plain hw hclear hdeep (show (m : Int) ≤ innermost b.columns by omega) n index line
    exact ⟨1, by simp [Content.chars], _, _, by simpa [Content.chars, Content.tokens] using hword⟩
  | quoted w =>
    have htext := (quoted hfits (List.replicate (n + 1) '\n' ++ (List.replicate m ' ' ++ rest)) hdeep
      index line).trans (newLine hclear n m _ _ _)
    exact ⟨1, by simp [Content.chars], _, _, by simpa [Content.chars, Content.tokens] using htext⟩

/-- A key with its content, up to the next line. -/
theorem entry {w : List Char} (hw : IsKey w) {content : Content} {column : Nat}
    (hfits : content.Fits column m) (hclear : Clear rest) (n index line : Nat) :
    ∃ steps ≤ (w ++ ':' :: content.chars).length, ∃ index' line', Leads
      (within ⟨w ++ ':' :: (content.chars ++ (List.replicate (n + 1) '\n' ++
        (List.replicate m ' ' ++ rest))), index, line, column⟩ b true none) steps
      (within ⟨rest, index', line', m⟩ (((b.close column).enter column .blockMapping).push
        ([.key, .scalar true w, .value] ++ content.tokens)) true none) := by
  have hgap : atGapOrBreak (content.chars ++ (List.replicate (n + 1) '\n' ++
      (List.replicate m ' ' ++ rest))) = true := by
    cases content <;> rfl
  have hkey := keyColon (b := b) hw hgap index line column
  have hopen := Blocks.innermost_enter (Blocks.innermost_close column b) .blockMapping
  rw [← Blocks.columns_push [.key, .scalar true w, .value]] at hopen
  obtain ⟨steps, hsteps, index', line', hcontent⟩ := Leads.content hfits hclear hopen n
    (index + w.length + 1) line (show column ≤ column + w.length + 1 by omega)
  refine ⟨2 + steps, ?_, index', line', by simpa using hkey.trans hcontent⟩
  have hlength := List.length_pos_iff.mpr hw.word.ne_nil
  simp only [List.length_append, List.length_cons]
  omega

/-- A line, up to the next one. -/
theorem line {l : Line} (hl : l.Fits m) (hclear : Clear rest) (index line : Nat) :
    ∃ steps ≤ l.chars.length, ∃ index' line', Leads
      (within ⟨l.chars ++ (List.replicate (l.blank + 1) '\n' ++ (List.replicate m ' ' ++ rest)), index,
        line, l.column⟩ b true none) steps
      (within ⟨rest, index', line', m⟩ (l.blocks b) true none) := by
  obtain ⟨column, dash, w, content, blank⟩ := l
  obtain ⟨hw, hfits⟩ := hl
  simp only at hw hfits
  cases dash with
  | false =>
    obtain ⟨steps, hsteps, index', line', hentry⟩ := entry (b := b) hw hfits hclear blank
      index line
    exact ⟨steps, hsteps, index', line', by
      simpa [Line.chars, Line.blocks, Line.keyColumn] using hentry⟩
  | true =>
    -- Behind the dash the key stands two columns deeper.
    obtain ⟨steps, hsteps, index', line', hentry⟩ := entry
      (b := ((b.close column).enter column .blockSequence).push [.blockEntry]) hw hfits hclear blank
      (index + 2) line
    have hdash := dash (b := b) (hw.word.clear (':' :: (content.chars ++ (List.replicate (blank + 1) '\n' ++
      (List.replicate m ' ' ++ rest))))) index line column
    refine ⟨1 + steps, ?_, index', line', ?_⟩
    · simp [Line.chars] at hsteps ⊢
      omega
    · simpa [Line.chars, Line.blocks, Line.keyColumn] using hdash.trans hentry

end Scan.Leads

/-- Lines are read one after another. -/
theorem Scan.run_lines {lines : List Line} (hlines : Line.FitAll lines) (b : Blocks)
    (index line : Nat) {fuel : Nat} (hfuel : (Line.text lines).length < fuel) :
    run fuel (within ⟨Line.text lines, index, line, Line.columnOf lines⟩ b true none) =
      some (lines.foldl (fun b l => l.blocks b) b).done.toArray := by
  -- By the lines: each takes no more steps than it has characters, so the fuel suffices for all.
  induction lines generalizing b index line fuel with
  | nil =>
    obtain ⟨fuel, rfl⟩ := Nat.exists_eq_add_of_le' (show 1 ≤ fuel by omega)
    exact run_end fuel index line 0
  | cons l lines ih =>
    obtain ⟨hl, hlines⟩ := hlines
    obtain ⟨steps, hsteps, index', line', hleads⟩ := Leads.line (b := b) hl (clear_text hlines) index line
    simp only [Line.text, List.length_append] at hfuel
    obtain ⟨fuel, rfl⟩ := Nat.exists_eq_add_of_le' (show steps ≤ fuel by omega)
    rw [Line.text, Line.columnOf, hleads fuel, ih hlines _ _ _ (by omega), List.foldl_cons]

/-- The tokens that lines write. -/
def Line.tokens (lines : List Line) : List Token :=
  (lines.foldl (fun (b : Blocks) l => l.blocks b) ⟨[], []⟩).done

/-- The tokens of lines are read from their text. -/
theorem Token.ofText_lines {lines : List Line} (hlines : Line.FitAll lines)
    (hstart : Line.columnOf lines = 0) (hprintable : (Line.text lines).all isPrintable = true) :
    Token.ofText (Line.text lines) = some (Line.tokens lines) := by
  have hrun := Scan.run_lines hlines ⟨[], []⟩ 0 0 (show (Line.text lines).length <
    (Line.text lines).length + 2 by omega)
  rw [hstart, ← Scan.start_eq] at hrun
  rw [Token.ofText, if_pos hprintable, hrun]
  rfl

/-! ## A dash behind a colon -/

/-- A scan ends where there is no next token. -/
theorem Scan.Leads.run_eq_none {s s' : Scan} {n fuel : Nat} (h : s.Leads n s') (hstep : s'.step = none)
    (hfuel : n ≤ fuel) : run fuel s = none := by
  obtain ⟨fuel, rfl⟩ := Nat.exists_eq_add_of_le' hfuel
  rw [h fuel]
  cases fuel with
  | zero => rfl
  | succ fuel => rw [run, hstep]

/-- Behind a colon no item may start on the same line. -/
theorem Scan.step_dash {b : Blocks} {rest : List Char} (hrest : atGapOrBreak rest = true)
    (index line column : Nat) :
    (within ⟨'-' :: rest, index, line, column⟩ b false none).step = none := by
  have hmark : atMarker ('-' :: rest) = false := by
    unfold atMarker
    split
    · rename_i heq
      obtain ⟨-, rfl⟩ := List.cons.inj heq
      cases hrest
    · rename_i heq
      cases heq
    · rfl
  rw [step_within (clear_cons (by decide) _) (by simp)]
  simp [act, within, hmark, hrest, blockDash, inFlow]

/-- Lines of which the second has a dash alone behind its colon have no tokens. -/
theorem Token.ofText_dash {l : Line} (hl : l.Fits 0) (hcolumn : l.column = 0) {w : List Char}
    (hw : IsKey w) (blank : Nat) (lines : List Line) :
    Token.ofText (Line.text (l :: ⟨0, false, w, .plain ['-'], blank⟩ :: lines)) = none := by
  let rest := List.replicate (blank + 1) '\n' ++
    (List.replicate (Line.columnOf lines) ' ' ++ Line.text lines)
  have htext : Line.text (l :: ⟨0, false, w, .plain ['-'], blank⟩ :: lines) =
      l.chars ++ (List.replicate (l.blank + 1) '\n' ++ (w ++ ':' :: ' ' :: '-' :: rest)) := by
    simp [Line.text, Line.columnOf, Line.chars, Content.chars, rest]
  have hclear : Clear ('-' :: rest) := clear_cons (by decide) rest
  rw [htext, Token.ofText]
  split
  · obtain ⟨steps, hsteps, index, line, hline⟩ := Scan.Leads.line (b := ⟨[], []⟩) hl
      (hw.word.clear (':' :: ' ' :: '-' :: rest)) 0 0
    have hkey := Scan.Leads.keyColon (b := l.blocks ⟨[], []⟩) hw
      (show atGapOrBreak (' ' :: '-' :: rest) = true from rfl) index line 0
    have hleads := (hline.trans hkey).trans (.space hclear _ _ _)
    rw [hcolumn, List.replicate_zero, List.nil_append, ← Scan.start_eq] at hleads
    rw [hleads.run_eq_none (Scan.step_dash rfl _ _ _) (by simp; omega)]
    rfl
  · rfl

end GameInstaller.Yaml
