import GameInstaller.Yaml.Token
import Mathlib.Data.List.TakeWhile

/-!
# Words of a YAML stream

What the scanner passes over and reads between two tokens of a line: line breaks and indentation, plain
words, and text in quotes.

* `Clear`        input on which a token may start
* `EndsWord`     input at which a plain word ends
* `isPlainChar`  the characters that plain words are made of here

## Key results

- `Scan.toNextToken_spaces`, `Scan.toNextToken_breaks`: the next token
- `readPlain_colon`: a word before a colon
- `readPlain_break`: a word at the end of a line, with the line breaks and indentation behind it
- `readQuoted_line`: a text in quotes
-/

namespace GameInstaller.Yaml

/-- Input on which a token may start, or which has ended. -/
def Clear (rest : List Char) : Prop :=
  ∀ c ∈ rest.head?, isGap c = false ∧ isBreak c = false ∧ c ≠ '#' ∧ c ≠ '\uFEFF'

theorem clear_nil : Clear [] := by simp [Clear]

theorem clear_cons {c : Char} (h : isGap c = false ∧ isBreak c = false ∧ c ≠ '#' ∧ c ≠ '\uFEFF')
    (rest : List Char) : Clear (c :: rest) := by
  simpa [Clear] using h

namespace Clear

variable {rest : List Char}

theorem startsWith_false (h : Clear rest) {p : Char → Bool}
    (hp : ∀ c, isGap c = false → isBreak c = false → c ≠ '#' → c ≠ '\uFEFF' → p c = false) :
    startsWith p rest = false := by
  cases rest with
  | nil => rfl
  | cons c rest =>
    obtain ⟨hgap, hbreak, hhash, hmark⟩ := h c rfl
    exact hp c hgap hbreak hhash hmark

theorem lineBreak (h : Clear rest) (index line column : Nat) :
    (⟨rest, index, line, column⟩ : Cursor).lineBreak = none := by
  cases rest with
  | nil => rfl
  | cons c rest =>
    obtain ⟨-, hbreak, -, -⟩ := h c rfl
    have hreturn : c ≠ '\r' := by
      rintro rfl
      cases hbreak
    simp [Cursor.lineBreak, hbreak, hreturn]

end Clear

/-! ## Between two tokens -/

theorem takeWhile_spaces (p : Char → Bool) (hp : p ' ' = true) (m : Nat) {rest : List Char}
    (hrest : startsWith p rest = false) :
    (List.replicate m ' ' ++ rest).takeWhile p = List.replicate m ' ' := by
  rw [List.takeWhile_append_of_pos]
  · cases rest with
    | nil => simp
    | cons c rest => rw [List.takeWhile_cons_of_neg (by simpa [startsWith] using hrest), List.append_nil]
  · intro c hc
    rw [List.eq_of_mem_replicate hc, hp]

namespace Scan

/-- Spaces before a token are passed over. -/
theorem toNextToken_spaces {s : Scan} {m : Nat} {rest : List Char} (hclear : Clear rest)
    (hrest : s.cursor.rest = List.replicate m ' ' ++ rest) (fuel : Nat) :
    s.toNextToken (fuel + 1) =
      { s with cursor := ⟨rest, s.cursor.index + m, s.cursor.line, s.cursor.column + m⟩ } := by
  have hmark : startsWith (· == '\uFEFF') s.cursor.rest = false := by
    rw [hrest]
    cases m with
    | zero => exact hclear.startsWith_false (by simp_all)
    | succ m => rfl
  have hskip : (s.cursor.skipWhile fun d => d == ' ' || (d == '\t' && (s.inFlow || !s.keyAllowed))) =
      ⟨rest, s.cursor.index + m, s.cursor.line, s.cursor.column + m⟩ := by
    rw [Cursor.skipWhile, hrest, takeWhile_spaces _ rfl, Cursor.skip, hrest]
    · simp
    · refine hclear.startsWith_false fun c hgap _ _ _ => ?_
      simp_all [isGap]
  have hcomment : startsWith (· == '#') rest = false := hclear.startsWith_false (by simp_all)
  simp only [toNextToken, hmark, Bool.and_false, Bool.false_eq_true, if_false, hskip,
    Cursor.skipComment, hcomment, hclear.lineBreak]

/-- Outside of brackets a key may start on a new line. -/
theorem toNextToken_newLine {s : Scan} {rest : List Char} (hrest : s.cursor.rest = '\n' :: rest)
    (hflow : s.keys.length ≤ 1) (fuel : Nat) :
    s.toNextToken (fuel + 1) = toNextToken fuel
      { s with cursor := ⟨rest, s.cursor.index + 1, s.cursor.line + 1, 0⟩, keyAllowed := true } := by
  have hblock : s.inFlow = false := by
    rw [inFlow, decide_eq_false_iff_not]
    omega
  rw [toNextToken]
  simp [hrest, hblock, startsWith, Cursor.skipWhile, Cursor.skip, Cursor.skipComment, Cursor.lineBreak,
    isBreak]

/-- Line breaks and the indentation behind them are passed over. -/
theorem toNextToken_breaks {s : Scan} {n m fuel : Nat} {rest : List Char} (hclear : Clear rest)
    (hrest : s.cursor.rest = List.replicate (n + 1) '\n' ++ (List.replicate m ' ' ++ rest))
    (hflow : s.keys.length ≤ 1) (hfuel : n + 1 < fuel) :
    s.toNextToken fuel =
      { s with
        cursor := ⟨rest, s.cursor.index + (n + 1) + m, s.cursor.line + (n + 1), m⟩
        keyAllowed := true } := by
  obtain ⟨fuel, rfl⟩ := Nat.exists_eq_add_of_le' (show 1 ≤ fuel by omega)
  rw [List.replicate_succ, List.cons_append] at hrest
  -- Behind the first line break there is a break more, or the indentation.
  rw [toNextToken_newLine hrest hflow]
  induction n generalizing s fuel with
  | zero =>
    obtain ⟨fuel, rfl⟩ := Nat.exists_eq_add_of_le' (show 1 ≤ fuel by omega)
    rw [toNextToken_spaces hclear rfl]
    simp
  | succ n ih =>
    obtain ⟨fuel, rfl⟩ := Nat.exists_eq_add_of_le' (show 1 ≤ fuel by omega)
    rw [List.replicate_succ, List.cons_append, toNextToken_newLine rfl (by exact hflow),
      ih rfl (by exact hflow) _ (by omega)]
    simp only [Scan.mk.injEq, Cursor.mk.injEq, true_and, and_true]
    omega

end Scan

/-! ## Gaps -/

/-- Behind a line break the indentation is no part of a scalar. -/
theorem readGap_spaces {indent : Option Int} {g : Gap} (hg : g.crossed = true) {m fuel : Nat}
    {rest : List Char} (hclear : Clear rest) (hfuel : m < fuel) (index line column : Nat) :
    readGap indent fuel g ⟨List.replicate m ' ' ++ rest, index, line, column⟩ =
      some (g, ⟨rest, index + m, line, column + m⟩) := by
  induction m generalizing fuel index column with
  | zero =>
    obtain ⟨fuel, rfl⟩ := Nat.exists_eq_add_of_le' hfuel
    cases rest with
    | nil => rfl
    | cons c rest =>
      have hbreak := hclear.lineBreak index line column
      obtain ⟨hgap, -, -, -⟩ := hclear c rfl
      simp [readGap, hgap, hbreak]
  | succ m ih =>
    obtain ⟨fuel, rfl⟩ := Nat.exists_eq_add_of_le' (show 1 ≤ fuel by omega)
    have hnext := ih (show m < fuel by omega) (index + 1) (column + 1)
    simp [readGap, List.replicate_succ, isGap, hg, Cursor.next, hnext]
    omega

/-- Further line breaks go into the gap. -/
theorem readGap_breaks (indent : Option Int) (n : Nat) {g : Gap} (hg : g.crossed = true)
    {m fuel : Nat} {rest : List Char} (hclear : Clear rest) (hfuel : n + m < fuel)
    (index line : Nat) :
    ∃ g', g'.crossed = true ∧
      readGap indent fuel g ⟨List.replicate n '\n' ++ (List.replicate m ' ' ++ rest), index, line, 0⟩ =
        some (g', ⟨rest, index + n + m, line + n, m⟩) := by
  induction n generalizing g fuel index line with
  | zero => exact ⟨g, hg, by simpa using readGap_spaces hg hclear (by omega) index line 0⟩
  | succ n ih =>
    obtain ⟨fuel, rfl⟩ := Nat.exists_eq_add_of_le' (show 1 ≤ fuel by omega)
    obtain ⟨blanks, firstBreak, moreBreaks, crossed⟩ := g
    obtain rfl : crossed = true := hg
    obtain ⟨g', hg', hnext⟩ := ih (g := ⟨blanks, firstBreak, moreBreaks ++ ['\n'], true⟩) rfl
      (show n + m < fuel by omega) (index + 1) (line + 1)
    refine ⟨g', hg', ?_⟩
    simp [readGap, List.replicate_succ, isGap, isBreak, Cursor.lineBreak, hnext]
    omega

/-- The gap at the end of a line. -/
theorem readGap_line (indent : Option Int) (n : Nat) {m fuel : Nat} {rest : List Char}
    (hclear : Clear rest) (hfuel : n + 1 + m < fuel) (index line column : Nat) :
    ∃ g', g'.crossed = true ∧
      readGap indent fuel {}
          ⟨List.replicate (n + 1) '\n' ++ (List.replicate m ' ' ++ rest), index, line, column⟩ =
        some (g', ⟨rest, index + (n + 1) + m, line + (n + 1), m⟩) := by
  obtain ⟨fuel, rfl⟩ := Nat.exists_eq_add_of_le' (show 1 ≤ fuel by omega)
  obtain ⟨g', hg', hnext⟩ := readGap_breaks indent n
    (g := { firstBreak := ['\n'], crossed := true }) rfl hclear (show n + m < fuel by omega)
    (index + 1) (line + 1)
  refine ⟨g', hg', ?_⟩
  simp [readGap, List.replicate_succ, isGap, isBreak, Cursor.lineBreak, hnext]
  omega

/-! ## Plain words -/

/-- A character that does not end a plain word, whatever stands behind it. -/
def isPlainChar (c : Char) : Bool :=
  !(isGap c || isBreak c || c == ':' || c == '#' || c == '\uFEFF')

/-- A character that something else than a plain scalar may start with. -/
def isIndicator (c : Char) : Bool := "-?:,[]\x7b\x7d#&*!|>'\"%@`".toList.contains c

/-- A word that a plain scalar may be: it starts with no indicator, or with a dash that is not all of
    it. -/
structure IsWord (w : List Char) : Prop where
  plain : ∀ c ∈ w, isPlainChar c = true
  start : ∃ c r, w = c :: r ∧ (isIndicator c = false ∨ c = '-' ∧ r ≠ [])

theorem IsWord.ne_nil {w : List Char} (h : IsWord w) : w ≠ [] := by
  obtain ⟨c, r, rfl, -⟩ := h.start
  exact List.cons_ne_nil c r

theorem IsWord.clear {w : List Char} (h : IsWord w) (rest : List Char) : Clear (w ++ rest) := by
  obtain ⟨c, r, rfl, -⟩ := h.start
  have hc := h.plain c List.mem_cons_self
  simp [isPlainChar] at hc
  exact clear_cons (by simp [hc]) _

theorem isWord_iff {w : List Char} : IsWord w ↔ w.all isPlainChar = true ∧
    (w.head?.any fun c => !isIndicator c || c == '-' && 1 < w.length) = true := by
  cases w with
  | nil =>
    refine iff_of_false (fun h => h.ne_nil rfl) ?_
    simp
  | cons c r =>
    simp only [List.all_eq_true, List.head?_cons, Option.any_some, List.length_cons]
    constructor
    · rintro ⟨hplain, _, _, ⟨⟩, hstart⟩
      refine ⟨hplain, ?_⟩
      rcases hstart with hc | ⟨rfl, hr⟩
      · simp [hc]
      · simp [List.length_pos_iff.mpr hr]
    · rintro ⟨hplain, hstart⟩
      refine ⟨hplain, c, r, rfl, ?_⟩
      simpa [List.length_pos_iff] using hstart

instance : DecidablePred IsWord := fun _ => decidable_of_iff _ isWord_iff.symm

/-- More characters may stand behind a word. -/
theorem IsWord.append {w w' : List Char} (h : IsWord w) (h' : ∀ c ∈ w', isPlainChar c = true) :
    IsWord (w ++ w') where
  plain c hc := (List.mem_append.mp hc).elim (h.plain c) (h' c)
  start := by
    obtain ⟨c, r, rfl, hstart⟩ := h.start
    exact ⟨c, r ++ w', rfl, hstart.imp_right fun ⟨hc, hr⟩ => ⟨hc, by simp [hr]⟩⟩

/-- Input at which a plain word ends. -/
def EndsWord : List Char → Prop
  | ':' :: rest => atGapOrBreak rest = true
  | rest => atGapOrBreak rest = true

theorem plainWord_end {rest : List Char} (hrest : EndsWord rest) (fuel : Nat) (acc : List Char)
    (index line column : Nat) :
    plainWord false (fuel + 1) acc ⟨rest, index, line, column⟩ =
      some (acc, ⟨rest, index, line, column⟩) := by
  unfold EndsWord at hrest
  split at hrest
  · simp [plainWord, isGap, isBreak, hrest]
  · cases rest with
    | nil => rfl
    | cons c rest =>
      have hend : (isGap c || isBreak c) = true := hrest
      simp [plainWord, hend]

theorem plainWord_append {w rest : List Char} (hw : ∀ c ∈ w, isPlainChar c = true)
    (hrest : EndsWord rest) {fuel : Nat} (hfuel : w.length < fuel) (acc : List Char)
    (index line column : Nat) :
    plainWord false fuel acc ⟨w ++ rest, index, line, column⟩ =
      some (w.reverse ++ acc, ⟨rest, index + w.length, line, column + w.length⟩) := by
  induction w generalizing fuel acc index column with
  | nil =>
    obtain ⟨fuel, rfl⟩ := Nat.exists_eq_add_of_le' (show 1 ≤ fuel by omega)
    exact plainWord_end hrest fuel acc index line column
  | cons c w ih =>
    obtain ⟨hc, hw⟩ := List.forall_mem_cons.mp hw
    rw [List.length_cons] at hfuel
    obtain ⟨fuel, rfl⟩ := Nat.exists_eq_add_of_le' (show 1 ≤ fuel by omega)
    have hnext := ih hw (show w.length < fuel by omega) (c :: acc) (index + 1) (column + 1)
    simp [isPlainChar] at hc
    simp [plainWord, hc, Cursor.next, hnext]
    omega

/-- No document marker stands at a place: the line has begun before it, or it starts otherwise. -/
def Unmarked (rest : List Char) (column : Nat) : Prop := column = 0 → atMarker rest = false

/-- The first word of a plain scalar, at most followed by its gap. -/
theorem plainWords_word {w rest : List Char} (hne : w ≠ []) (hw : ∀ c ∈ w, isPlainChar c = true)
    (hrest : EndsWord rest) {column : Nat} (hmark : Unmarked (w ++ rest) column) (indent : Int)
    (fuel index line : Nat) :
    plainWords false indent (fuel + 1) [] {} ⟨w ++ rest, index, line, column⟩ =
      if startsWith (fun d => isGap d || isBreak d) rest then
        (readGap (some indent) (rest.length + 1) {}
          ⟨rest, index + w.length, line, column + w.length⟩).bind fun r =>
            if (r.2.column : Int) < indent then some ⟨w, r.2, r.1.crossed⟩
            else plainWords false indent fuel w.reverse r.1 r.2
      else some ⟨w, ⟨rest, index + w.length, line, column + w.length⟩, false⟩ := by
  have hword := plainWord_append hw hrest (show w.length < (w ++ rest).length + 1 by rw [List.length_append]; omega) []
    index line column
  have hempty : w.isEmpty = false := by simpa using hne
  have hhash : startsWith (· == '#') (w ++ rest) = false := by
    obtain ⟨c, w, rfl⟩ := List.exists_cons_of_ne_nil hne
    have hc := hw c List.mem_cons_self
    simp [isPlainChar] at hc
    simpa [startsWith] using hc.1.2
  -- Neither a marker nor a comment ends the scalar before its first word.
  have hmark' : (decide (column = 0) && atMarker (w ++ rest)) = false := by
    by_cases h : column = 0
    · simp [h, hmark h]
    · simp [h]
  rw [plainWords]
  simp only [hmark', hhash, Bool.or_self, Bool.false_eq_true, if_false, hword, List.append_nil,
    List.isEmpty_reverse, hempty]
  have hfold : ({} : Gap).fold = [] := rfl
  cases startsWith (fun d => isGap d || isBreak d) rest with
  | false => simp [hfold]
  | true =>
    cases readGap (some indent) (rest.length + 1) {}
      ⟨rest, index + w.length, line, column + w.length⟩ <;> simp [hfold]

/-- A word before a colon. -/
theorem readPlain_colon {w rest : List Char} (hne : w ≠ []) (hw : ∀ c ∈ w, isPlainChar c = true)
    (hrest : atGapOrBreak rest = true) {column : Nat} (hmark : Unmarked (w ++ ':' :: rest) column)
    (parent : Int) (index line : Nat) :
    readPlain false parent ⟨w ++ ':' :: rest, index, line, column⟩ =
      some ⟨w, ⟨':' :: rest, index + w.length, line, column + w.length⟩, false⟩ := by
  rw [readPlain, plainWords_word hne hw (show EndsWord (':' :: rest) from hrest) hmark]
  rfl

/-- A word at the end of a line, with the line breaks and the indentation behind it; the next line
    does not belong to it. -/
theorem readPlain_break {w rest : List Char} (hne : w ≠ []) (hw : ∀ c ∈ w, isPlainChar c = true)
    (hclear : Clear rest) {n m : Nat} (column : Nat)
    (hmark : Unmarked (w ++ (List.replicate (n + 1) '\n' ++ (List.replicate m ' ' ++ rest))) column)
    {parent : Int} (hless : m < parent + 1) (index line : Nat) :
    readPlain false parent
        ⟨w ++ (List.replicate (n + 1) '\n' ++ (List.replicate m ' ' ++ rest)), index, line, column⟩ =
      some ⟨w, ⟨rest, index + w.length + (n + 1) + m, line + (n + 1), m⟩, true⟩ := by
  have hfuel : n + 1 + m < (List.replicate (n + 1) '\n' ++ (List.replicate m ' ' ++ rest)).length + 1 := by
    simp only [List.length_append, List.length_replicate]
    omega
  -- The gap leads to a line that is not deep enough, where the scalar has ended.
  obtain ⟨g, hg, hgap⟩ := readGap_line (some (parent + 1)) n hclear hfuel (index + w.length) line
    (column + w.length)
  have hshallow : (m : Int) ≤ parent := Int.lt_add_one_iff.mp hless
  rw [readPlain, plainWords_word hne hw _ hmark, hgap]
  · simp [List.replicate_succ, startsWith, isBreak, Int.lt_add_one_iff, hshallow, hg]
  · rfl

/-! ## Text in quotes -/

/-- A character that stands for itself in quotes. -/
def isQuotedChar (c : Char) : Bool := !(isBreak c || c == '"' || c == '\\')

theorem quotedWord_append {w rest : List Char} (hw : ∀ c ∈ w, isQuotedChar c = true ∧ isGap c = false)
    (hrest : startsWith (fun c => isGap c || c == '"') rest = true) {fuel : Nat}
    (hfuel : w.length < fuel) (acc : List Char) (index line column : Nat) :
    quotedWord false fuel acc ⟨w ++ rest, index, line, column⟩ =
      some (w.reverse ++ acc, false, ⟨rest, index + w.length, line, column + w.length⟩) := by
  induction w generalizing fuel acc index column with
  | nil =>
    obtain ⟨fuel, rfl⟩ := Nat.exists_eq_add_of_le' (show 1 ≤ fuel by omega)
    cases rest with
    | nil => cases hrest
    | cons c rest =>
      simp only [startsWith, Bool.or_eq_true, beq_iff_eq] at hrest
      rcases hrest with hgap | rfl
      · simp [quotedWord, hgap]
      · simp [quotedWord]
  | cons c w ih =>
    obtain ⟨hc, hw⟩ := List.forall_mem_cons.mp hw
    rw [List.length_cons] at hfuel
    obtain ⟨fuel, rfl⟩ := Nat.exists_eq_add_of_le' (show 1 ≤ fuel by omega)
    have hnext := ih hw (show w.length < fuel by omega) (c :: acc) (index + 1) (column + 1)
    simp [isQuotedChar] at hc
    simp [quotedWord, hc, Cursor.next, hnext]
    omega

theorem readGap_blanks {bs rest : List Char} (hbs : ∀ c ∈ bs, isGap c = true)
    (hrest : startsWith (fun c => !isGap c && !isBreak c) rest = true) {fuel : Nat}
    (hfuel : bs.length < fuel) (blanks : List Char) (index line column : Nat) :
    readGap none fuel ⟨blanks, [], [], false⟩ ⟨bs ++ rest, index, line, column⟩ =
      some (⟨blanks ++ bs, [], [], false⟩, ⟨rest, index + bs.length, line, column + bs.length⟩) := by
  induction bs generalizing fuel blanks index column with
  | nil =>
    obtain ⟨fuel, rfl⟩ := Nat.exists_eq_add_of_le' (show 1 ≤ fuel by omega)
    cases rest with
    | nil => cases hrest
    | cons c rest =>
      simp [startsWith] at hrest
      have hreturn : c ≠ '\r' := by
        rintro rfl
        cases hrest.2
      simp [readGap, hrest, Cursor.lineBreak, hreturn]
  | cons c bs ih =>
    obtain ⟨hc, hbs⟩ := List.forall_mem_cons.mp hbs
    rw [List.length_cons] at hfuel
    obtain ⟨fuel, rfl⟩ := Nat.exists_eq_add_of_le' (show 1 ≤ fuel by omega)
    have hnext := ih hbs (show bs.length < fuel by omega) (blanks ++ [c]) (index + 1) (column + 1)
    simp [readGap, hc, Cursor.next, hnext]
    omega

/-- A text is cut where a class of characters ends. -/
theorem exists_run (p : Char → Bool) (w : List Char) :
    ∃ a b, a ++ b = w ∧ (∀ c ∈ a, p c = true) ∧ startsWith p b = false := by
  refine ⟨w.takeWhile p, w.dropWhile p, List.takeWhile_append_dropWhile,
    fun c hc => List.mem_takeWhile_imp hc, ?_⟩
  have hhead := List.head?_dropWhile_not p w
  cases h : w.dropWhile p with
  | nil => rfl
  | cons c b => simpa [h, startsWith] using hhead

/-- A text begins with a word and the blanks behind it; only the last word has none. -/
theorem exists_word (w : List Char) : ∃ a b w', a ++ (b ++ w') = w ∧ (∀ c ∈ a, isGap c = false) ∧
    (∀ c ∈ b, isGap c = true) ∧ startsWith isGap w' = false ∧ (b = [] → w' = []) := by
  obtain ⟨a, rest, rfl, ha, hrest⟩ := exists_run (fun c => !isGap c) w
  obtain ⟨b, w', rfl, hb, hw'⟩ := exists_run isGap rest
  refine ⟨a, b, w', rfl, fun c hc => by simpa using ha c hc, hb, hw', ?_⟩
  rintro rfl
  cases w' with
  | nil => rfl
  | cons c w' => simp_all [startsWith]

/-- The words of a text, up to the closing quote. -/
theorem quotedWords_append {w rest : List Char} (hw : ∀ c ∈ w, isQuotedChar c = true) {fuel : Nat}
    (hfuel : w.length < fuel) (acc : List Char) (index line : Nat) {column : Nat}
    (hcolumn : 0 < column) :
    quotedWords false fuel acc ⟨w ++ '"' :: rest, index, line, column⟩ =
      some ⟨acc.reverse ++ w, ⟨rest, index + w.length + 1, line, column + w.length + 1⟩, false⟩ := by
  induction fuel generalizing w acc index column with
  | zero => cases hfuel
  | succ fuel ih =>
    -- The first word, the blanks behind it, and what is left behind these.
    obtain ⟨a, b, w, rfl, ha, hb, hw', hlast⟩ := exists_word w
    obtain ⟨hwa, hwb⟩ := List.forall_mem_append.mp hw
    obtain ⟨-, hww⟩ := List.forall_mem_append.mp hwb
    rw [List.length_append, List.length_append] at hfuel
    have hstart : startsWith (fun c => isGap c || c == '"') (b ++ (w ++ '"' :: rest)) = true := by
      cases b with
      | cons c b => simp [startsWith, hb c List.mem_cons_self]
      | nil =>
        rw [hlast rfl]
        rfl
    have hword := quotedWord_append (fun c hc => ⟨hwa c hc, ha c hc⟩) hstart
      (show a.length < (a ++ (b ++ (w ++ '"' :: rest))).length + 1 by
        rw [List.length_append]; omega) acc index line column
    rw [quotedWords]
    have hne : column ≠ 0 := by omega
    have hempty : (a ++ (b ++ (w ++ '"' :: rest))).isEmpty = false := by simp
    simp only [List.append_assoc, hne, decide_false, Bool.false_and, Bool.false_eq_true, if_false,
      hempty, hword]
    cases b with
    | nil =>
      -- No blank follows, so this word is the last one.
      obtain rfl := hlast rfl
      simp [startsWith, Cursor.next]
    | cons c b =>
      have hstart' : startsWith (fun c => !isGap c && !isBreak c) (w ++ '"' :: rest) = true := by
        cases w with
        | nil => rfl
        | cons d w =>
          have hd := hww d List.mem_cons_self
          simp_all [startsWith, isQuotedChar]
      have hquote : (c == '"') = false := by
        have hc := hb c List.mem_cons_self
        rw [beq_eq_false_iff_ne]
        rintro rfl
        cases hc
      have hgap := readGap_blanks hb hstart'
        (show (c :: b).length < (c :: b ++ (w ++ '"' :: rest)).length + 1 by
          rw [List.length_append]; omega) []
        (index + a.length) line (column + a.length)
      have hnext := ih hww (show w.length < fuel by simp at hfuel; omega)
        ((c :: b).reverse ++ (a.reverse ++ acc)) (index + a.length + (c :: b).length)
        (show 0 < column + a.length + (c :: b).length by omega)
      rw [List.cons_append] at hgap ⊢
      simp [startsWith, hquote] at hgap ⊢
      rw [hgap]
      refine hnext.trans ?_
      simp
      omega

theorem readQuoted_line {w : List Char} (hw : ∀ c ∈ w, isQuotedChar c = true)
    (rest : List Char) (index line : Nat) {column : Nat} (hcolumn : 0 < column) :
    readQuoted false ⟨w ++ '"' :: rest, index, line, column⟩ =
      some ⟨w, ⟨rest, index + w.length + 1, line, column + w.length + 1⟩, false⟩ := by
  rw [readQuoted, quotedWords_append hw (by rw [List.length_append]; omega) [] index line hcolumn]
  rfl

end GameInstaller.Yaml
