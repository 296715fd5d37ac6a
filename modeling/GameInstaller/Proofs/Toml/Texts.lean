import GameInstaller.Proofs.Text
import GameInstaller.Toml.Text

/-!
# Texts of TOML documents

Every text is read back from its written form, whichever of the forms that is and whatever
characters the text has, as long as no quote follows the form.

* `Named`     a character that is written as a backslash and a name
* `Spelled`   what stands for a text between triples of quotes

## Key results

- `escapeChar_cases`: what a character is written as
- `basicBody_escapeChars`: a basic text on one line is read back
- `multiBody_of_spelled`: a text over several lines is read back
- `readText_encodeChars`: a text is read back from its written form
-/

namespace GameInstaller.Toml

/-! ## Single characters -/

/-- The four digits of a code point of ASCII, as they are written, are that code point. -/
theorem hexNumber?_hexPadded {n : Nat} (hn : n < 128) :
    ((Text.hexPadded 4 n).toList.map Char.toUpper).length = 4 ∧
      hexNumber? ((Text.hexPadded 4 n).toList.map Char.toUpper) = some n := by
  rw [Text.hexPadded, String.toList_ofList]
  -- ASCII has few code points, so all of them are tried.
  have hall : ∀ n < 128,
      ((List.replicate (4 - (Nat.toDigits 16 n).length) '0' ++ Nat.toDigits 16 n).map
        Char.toUpper).length = 4 ∧
      hexNumber? ((List.replicate (4 - (Nat.toDigits 16 n).length) '0' ++ Nat.toDigits 16 n).map
        Char.toUpper) = some n := by
    decide +kernel
  exact hall n hn

/-- A control character is read from its code point. -/
theorem codePoint_hexPadded {c : Char} (hc : isControl c = true) (rest : List Char) :
    codePoint 4 ((Text.hexPadded 4 c.toNat).toList.map Char.toUpper ++ rest) = some (c, rest) := by
  have hlt : c.toNat < 128 := by
    simp only [isControl, Bool.or_eq_true, Bool.and_eq_true, decide_eq_true_eq, beq_iff_eq] at hc
    omega
  obtain ⟨hlength, hvalue⟩ := hexNumber?_hexPadded hlt
  rw [codePoint, List.take_left' hlength, List.drop_left' hlength, if_neg (by omega)]
  simp only [hvalue]
  rw [if_pos (by omega), Char.ofNat_toNat]

/-- A character that is no control character, tab or line break stands as it is. -/
theorem isPlain_of_not_control {c : Char} (hc : isControl c = false) (hbreak : c ≠ '\n') :
    isPlain c = true := by
  have hnat : c.toNat ≠ 0x0A := fun h => hbreak (Char.toNat_inj.mp h)
  simp only [isControl, Bool.or_eq_false_iff, Bool.and_eq_false_iff, decide_eq_false_iff_not,
    beq_eq_false_iff_ne, bne_eq_false_iff_eq] at hc
  simp only [isPlain, Bool.or_eq_true, Bool.and_eq_true, decide_eq_true_eq, beq_iff_eq,
    bne_iff_ne]
  obtain ⟨(hlow | htab) | hline, hdel⟩ := hc
  · exact .inr ⟨by omega, hdel⟩
  · exact .inl htab
  · exact absurd hline hbreak

/-- What follows a backslash is the name of a character, and no line break is escaped. -/
def Named (c : Char) (name : List Char) : Prop :=
  ∀ rest, escape (name ++ rest) = some (c, rest) ∧ escapedBreak? (name ++ rest) = none

theorem named_quote : Named '"' ['"'] := fun _ => ⟨rfl, rfl⟩

/-- A character other than a quote is written as itself, as a break of lines where these are
    allowed, or as its name after a backslash. -/
theorem escapeChar_cases (multi : Bool) (c : Char) :
    (escapeChar multi c = [c] ∧ isPlain c = true ∧ c ≠ '\\') ∨
      (multi = true ∧ c = '\n' ∧ escapeChar multi c = ['\n']) ∨
      ∃ name, escapeChar multi c = '\\' :: name ∧ Named c name := by
  unfold escapeChar
  split
  iterate 2 exact .inr (.inr ⟨_, rfl, fun _ => ⟨rfl, rfl⟩⟩)
  · cases multi
    · exact .inr (.inr ⟨_, rfl, fun _ => ⟨rfl, rfl⟩⟩)
    · exact .inr (.inl ⟨rfl, rfl, rfl⟩)
  iterate 3 exact .inr (.inr ⟨_, rfl, fun _ => ⟨rfl, rfl⟩⟩)
  rename_i hbreak _ _ hslash
  split
  · rename_i hcontrol
    exact .inr (.inr ⟨_, rfl, fun rest => ⟨codePoint_hexPadded hcontrol rest, rfl⟩⟩)
  · rename_i hcontrol
    exact .inl ⟨rfl, isPlain_of_not_control (Bool.not_eq_true _ ▸ hcontrol) hbreak, hslash⟩

/-- Every character of a text is written as one character or more. -/
theorem length_le_escapeChars (multi : Bool) (limit run : Nat) (cs : List Char) :
    cs.length ≤ (escapeChars multi limit run cs).length := by
  induction cs generalizing run with
  | nil => exact Nat.zero_le _
  | cons c cs ih =>
    unfold escapeChars
    split
    · split
      · exact Nat.succ_le_succ (ih _)
      · exact Nat.succ_le_succ (Nat.le_succ_of_le (ih _))
    · have hc : 1 ≤ (escapeChar multi c).length := by
        obtain ⟨hw, -⟩ | ⟨-, -, hw⟩ | ⟨name, hw, -⟩ := escapeChar_cases multi c <;> simp [hw]
      rw [List.length_append, List.length_cons, Nat.add_comm cs.length]
      exact Nat.add_le_add hc (ih 0)

/-! ## Texts on one line -/

section Line

variable {c : Char} {name : List Char} (fuel : Nat) (acc rest : List Char)

theorem basicBody_plain (hplain : isPlain c = true) (hquote : c ≠ '"') (hslash : c ≠ '\\') :
    basicBody (fuel + 1) acc (c :: rest) = basicBody fuel (c :: acc) rest := by
  rw [basicBody.eq_def]
  simp [hplain]

theorem basicBody_named (h : Named c name) :
    basicBody (fuel + 1) acc ('\\' :: (name ++ rest)) = basicBody fuel (c :: acc) rest := by
  simp [basicBody, (h rest).1]

end Line

/-- A basic text on one line is read back. -/
theorem basicBody_escapeChars (cs : List Char) {fuel : Nat} (hfuel : cs.length < fuel)
    (acc rest : List Char) :
    basicBody fuel acc (escapeChars false 0 0 cs ++ '"' :: rest) =
      some (acc.reverse ++ cs, rest) := by
  induction cs generalizing fuel acc with
  | nil =>
    obtain ⟨fuel, rfl⟩ := Nat.exists_eq_succ_of_ne_zero (Nat.ne_of_gt hfuel)
    simp [escapeChars, basicBody]
  | cons c cs ih =>
    obtain ⟨fuel, rfl⟩ := Nat.exists_eq_succ_of_ne_zero (Nat.ne_of_gt (Nat.zero_lt_of_lt hfuel))
    -- Once the first character was read, the others are by induction.
    have hnext : basicBody fuel (c :: acc) (escapeChars false 0 0 cs ++ '"' :: rest) =
        some (acc.reverse ++ c :: cs, rest) := by
      rw [ih (by simpa using hfuel), List.reverse_cons, List.append_assoc, List.singleton_append]
    rw [escapeChars]
    split
    · rename_i hquote
      subst hquote
      -- On one line no quote stands for itself.
      rw [if_neg (Nat.lt_irrefl 0)]
      exact (basicBody_named fuel acc _ named_quote).trans hnext
    · rename_i hquote
      rw [List.append_assoc]
      obtain ⟨hw, hplain, hslash⟩ | ⟨hmulti, -⟩ | ⟨name, hw, hname⟩ := escapeChar_cases false c
      · rw [hw]
        exact (basicBody_plain fuel acc _ hplain hquote hslash).trans hnext
      · contradiction
      · rw [hw]
        exact (basicBody_named fuel acc _ hname).trans hnext

/-- A literal text on one line is read back. -/
theorem literalBody_append {cs : List Char} (hcs : ∀ c ∈ cs, c ≠ '\'' ∧ isPlain c = true)
    (acc rest : List Char) :
    literalBody acc (cs ++ '\'' :: rest) = some (acc.reverse ++ cs, rest) := by
  induction cs generalizing acc with
  | nil => simp [literalBody]
  | cons c cs ih =>
    obtain ⟨hquote, hplain⟩ := hcs c List.mem_cons_self
    rw [List.cons_append, literalBody, if_neg hquote, if_pos hplain,
      ih fun d hd => hcs d (List.mem_cons_of_mem _ hd), List.reverse_cons, List.append_assoc,
      List.singleton_append]

/-! ## Texts over several lines -/

/-- No quote `q` stands in front. -/
def Clear (q : Char) (cs : List Char) : Prop := cs.head? ≠ some q

section Quotes

variable {q : Char} {cs : List Char}

theorem quoteRun_replicate (n : Nat) (h : Clear q cs) :
    quoteRun q (List.replicate n q ++ cs) = (n, cs) := by
  have hstop : cs.takeWhile (· == q) = [] ∧ cs.dropWhile (· == q) = cs := by
    cases cs with
    | nil => exact ⟨rfl, rfl⟩
    | cons c cs =>
      have hne : c ≠ q := fun heq => h (congrArg some heq)
      simp [hne]
  have hall : ∀ c ∈ List.replicate n q, (c == q) = true := fun c hc =>
    beq_iff_eq.mpr (List.eq_of_mem_replicate hc)
  rw [quoteRun, List.takeWhile_append_of_pos hall, List.dropWhile_append_of_pos hall, hstop.1,
    hstop.2, List.append_nil, List.length_replicate]

/-- Up to two quotes belong to the text. -/
theorem multiBody_quotes (fuel : Nat) (acc : List Char) {n : Nat} (hn : n ≤ 2) (h : Clear q cs) :
    ∃ fuel', fuel + 1 ≤ fuel' + n ∧ multiBody q (fuel + 1) acc (List.replicate n q ++ cs) =
      multiBody q fuel' (List.replicate n q ++ acc) cs := by
  cases n with
  | zero => exact ⟨fuel + 1, Nat.le_refl _, rfl⟩
  | succ n =>
    have hrun := quoteRun_replicate (n + 1) h
    rw [List.replicate_succ, List.cons_append] at hrun
    refine ⟨fuel, by omega, ?_⟩
    rw [List.replicate_succ, List.cons_append, multiBody]
    dsimp only
    rw [if_pos rfl, hrun]
    dsimp only
    rw [if_pos (by omega), List.replicate_succ]

/-- Up to two quotes in front of the closing ones belong to the text. -/
theorem multiBody_close (fuel : Nat) (acc : List Char) {n : Nat} (hn : n ≤ 2) (h : Clear q cs) :
    multiBody q (fuel + 1) acc (List.replicate n q ++ (triple q ++ cs)) =
      some (acc.reverse ++ List.replicate n q, cs) := by
  have hrun := quoteRun_replicate (n + 3) h
  have hfront : List.replicate n q ++ (triple q ++ cs) = q :: (List.replicate (n + 2) q ++ cs) := by
    rw [← List.append_assoc, ← List.cons_append, ← List.replicate_succ]
    exact congrArg (· ++ cs) (List.replicate_append_replicate (n := n) (m := 3) (a := q))
  rw [List.replicate_succ, List.cons_append] at hrun
  rw [hfront, multiBody]
  dsimp only
  rw [if_pos rfl, hrun]
  dsimp only
  rw [if_neg (by omega), if_neg (by omega), Nat.add_sub_cancel, List.reverse_append,
    List.reverse_replicate]

end Quotes

/-- What stands for a text between triples of `q` after a run of quotes: quotes that make a run of
    two at most, and other characters in forms that are read as them. -/
inductive Spelled (q : Char) : Nat → List Char → List Char → Prop where
  | nil {run : Nat} (hrun : run ≤ 2) : Spelled q run [] []
  | quote {run : Nat} {cs w : List Char} (hrun : run < 2) (rest : Spelled q (run + 1) cs w) :
      Spelled q run (q :: cs) (q :: w)
  | other {run : Nat} {c : Char} {form cs w : List Char} (hrun : run ≤ 2)
      (hne : form ≠ []) (hclear : Clear q form)
      (hform : ∀ fuel acc rest,
        multiBody q (fuel + 1) acc (form ++ rest) = multiBody q fuel (c :: acc) rest)
      (rest : Spelled q 0 cs w) : Spelled q run (c :: cs) (form ++ w)

theorem Clear.append {q : Char} {cs : List Char} (h : Clear q cs) (hne : cs ≠ []) (w : List Char) :
    Clear q (cs ++ w) := by
  obtain ⟨c, r, rfl⟩ := List.exists_cons_of_ne_nil hne
  exact h

/-- A text over several lines is read back. The run of quotes in front has not been read yet. -/
theorem multiBody_of_spelled {q : Char} {run : Nat} {cs w : List Char} (h : Spelled q run cs w)
    {fuel : Nat} (hfuel : run + cs.length < fuel) (acc : List Char) {rest : List Char}
    (hrest : Clear q rest) :
    multiBody q fuel acc (List.replicate run q ++ (w ++ (triple q ++ rest))) =
      some (acc.reverse ++ (List.replicate run q ++ cs), rest) := by
  induction h generalizing fuel acc with
  | nil hrun =>
    obtain ⟨fuel, rfl⟩ := Nat.exists_eq_succ_of_ne_zero (Nat.ne_of_gt (Nat.zero_lt_of_lt hfuel))
    simpa using multiBody_close fuel acc hrun hrest
  | @quote run cs w hrun _ ih =>
    have hmove (r : List Char) : List.replicate run q ++ q :: r = List.replicate (run + 1) q ++ r := by
      rw [List.replicate_succ', List.append_assoc, List.singleton_append]
    -- The quote joins the run in front of it, which stays unread.
    rw [List.cons_append, hmove, hmove]
    exact ih (by rw [List.length_cons] at hfuel; omega) acc
  | @other run c form cs w hrun hne hclear hform _ ih =>
    rw [List.length_cons] at hfuel
    obtain ⟨fuel, rfl⟩ := Nat.exists_eq_succ_of_ne_zero (Nat.ne_of_gt (Nat.zero_lt_of_lt hfuel))
    -- The run ends here: its quotes are read, then the character behind them.
    obtain ⟨fuel', hle, hquotes⟩ := multiBody_quotes (q := q) fuel acc hrun
      (hclear.append hne (w ++ (triple q ++ rest)))
    obtain ⟨fuel', rfl⟩ := Nat.exists_eq_succ_of_ne_zero (show fuel' ≠ 0 by omega)
    have hfuel' : 0 + cs.length < fuel' := by omega
    have hnext := ih hfuel' (c :: (List.replicate run q ++ acc))
    rw [List.replicate_zero, List.nil_append, List.nil_append] at hnext
    rw [List.append_assoc, hquotes, hform, hnext]
    simp

section Several

variable {q c : Char} (fuel : Nat) (acc rest : List Char)

theorem multiBody_break (hq : '\n' ≠ q) :
    multiBody q (fuel + 1) acc ('\n' :: rest) = multiBody q fuel ('\n' :: acc) rest := by
  rw [multiBody]
  dsimp only
  rw [if_neg hq]
  rfl

theorem multiBody_plain (hc : c ≠ q) (hplain : isPlain c = true) (hslash : q = '"' → c ≠ '\\') :
    multiBody q (fuel + 1) acc (c :: rest) = multiBody q fuel (c :: acc) rest := by
  have hbreak : newline? (c :: rest) = none := by
    unfold newline?
    split
    · rename_i heq
      simp [(List.cons.inj heq).1, isPlain] at hplain
    · rename_i heq
      simp [(List.cons.inj heq).1, isPlain] at hplain
    · rfl
  have hescape : ¬(decide (c = '\\') && q == '"') = true := by
    simpa using fun h hq => hslash hq h
  rw [multiBody]
  dsimp only
  rw [if_neg hc, hbreak]
  dsimp only
  rw [if_neg hescape, if_pos hplain]

theorem multiBody_named {name : List Char} (h : Named c name) :
    multiBody '"' (fuel + 1) acc ('\\' :: (name ++ rest)) = multiBody '"' fuel (c :: acc) rest := by
  obtain ⟨hescape, hbreak⟩ := h rest
  have hnewline : newline? ('\\' :: (name ++ rest)) = none := rfl
  rw [multiBody]
  dsimp only
  rw [if_neg (by decide), hnewline]
  dsimp only
  rw [if_pos (by decide), hbreak]
  dsimp only
  rw [hescape]

end Several

/-- A text with escapes is spelled, whatever characters it has. -/
theorem spelled_escapeChars (cs : List Char) {run : Nat} (hrun : run ≤ 2) :
    Spelled '"' run cs (escapeChars true 2 run cs) := by
  induction cs generalizing run with
  | nil => exact .nil hrun
  | cons c cs ih =>
    rw [escapeChars]
    split
    · rename_i hquote
      subst hquote
      split
      · rename_i hlt
        exact .quote hlt (ih hlt)
      · -- A third quote in a row is escaped, and ends the run.
        have hne : ['\\', '"'] ≠ [] := List.cons_ne_nil _ _
        exact .other hrun hne (by simp [Clear])
          (fun fuel acc rest => multiBody_named fuel acc rest named_quote) (ih (Nat.zero_le 2))
    · rename_i hquote
      have hrest := ih (Nat.zero_le 2)
      obtain ⟨hw, hplain, hslash⟩ | ⟨-, rfl, hw⟩ | ⟨name, hw, hname⟩ := escapeChar_cases true c
      · rw [hw]
        exact .other hrun (by simp) (by simpa [Clear] using hquote)
          (fun fuel acc rest => multiBody_plain fuel acc rest hquote hplain fun _ => hslash) hrest
      · rw [hw]
        exact .other hrun (by simp) (by simp [Clear])
          (fun fuel acc rest => multiBody_break fuel acc rest hquote) hrest
      · rw [hw]
        exact .other hrun (by simp) (by simp [Clear])
          (fun fuel acc rest => multiBody_named fuel acc rest hname) hrest

/-- The characters of a text count on the runs that they end. -/
def countRun (q : Char) : Nat × Nat → Char → Nat × Nat :=
  fun (best, cur) c => if c = q then (max best (cur + 1), cur + 1) else (best, 0)

theorem longestRun_eq (q : Char) (cs : List Char) :
    longestRun q cs = (cs.foldl (countRun q) (0, 0)).1 := rfl

/-- No longest run gets shorter. -/
theorem le_foldl_countRun (q : Char) (cs : List Char) (best cur : Nat) :
    best ≤ (cs.foldl (countRun q) (best, cur)).1 := by
  induction cs generalizing best cur with
  | nil => exact Nat.le_refl best
  | cons c cs ih =>
    rw [List.foldl_cons, countRun]
    split
    · exact Nat.le_trans (Nat.le_max_left _ _) (ih _ _)
    · exact ih _ _

/-- A text without control characters whose runs of quotes are short is spelled by itself. -/
theorem spelled_literal {cs : List Char} (hcs : ∀ c ∈ cs, isControl c = false) {best run : Nat}
    (hbest : (cs.foldl (countRun '\'') (best, run)).1 ≤ 2) (hrun : run ≤ 2) :
    Spelled '\'' run cs cs := by
  induction cs generalizing best run with
  | nil => exact .nil hrun
  | cons c cs ih =>
    have hcs' : ∀ d ∈ cs, isControl d = false := fun d hd => hcs d (List.mem_cons_of_mem _ hd)
    rw [List.foldl_cons, countRun] at hbest
    by_cases hquote : c = '\''
    · subst hquote
      rw [if_pos rfl] at hbest
      -- The run is no longer than the longest, which the rest makes no shorter.
      have hlt : run + 1 ≤ 2 :=
        Nat.le_trans (Nat.le_trans (Nat.le_max_right _ _) (le_foldl_countRun _ _ _ _)) hbest
      exact .quote hlt (ih hcs' hbest hlt)
    · rw [if_neg hquote] at hbest
      have hne : [c] ≠ [] := List.cons_ne_nil _ _
      refine .other hrun hne (by simpa [Clear] using hquote) (fun fuel acc rest => ?_)
        (ih hcs' hbest (Nat.zero_le 2))
      by_cases hbreak : c = '\n'
      · subst hbreak
        exact multiBody_break fuel acc rest hquote
      · exact multiBody_plain fuel acc rest hquote
          (isPlain_of_not_control (hcs c List.mem_cons_self) hbreak) (by simp)

/-! ## Written forms -/

/-- Whether a triple of quotes stands in front is seen from the two characters after the first. -/
theorem readText_of_line {q : Char} {w rest : List Char} (hw : w ≠ [] → Clear q w)
    (hrest : Clear q rest) : readText (q :: (w ++ q :: rest)) = readLineText (q :: (w ++ q :: rest)) := by
  -- Of a triple the second quote would close the text, and the third would follow.
  have hnot : ∀ r, w ++ q :: rest ≠ q :: q :: r := by
    intro r heq
    cases w with
    | nil => exact hrest (congrArg List.head? (List.cons.inj heq).2)
    | cons c w => exact hw (by simp) (congrArg some (List.cons.inj heq).1)
  unfold readText
  split
  · rename_i heq
    obtain ⟨rfl, htail⟩ := List.cons.inj heq
    exact absurd htail (hnot _)
  · rename_i heq
    obtain ⟨rfl, htail⟩ := List.cons.inj heq
    exact absurd htail (hnot _)
  · rfl

theorem readText_basic (cs : List Char) {rest : List Char} (hrest : Clear '"' rest) :
    readText ('"' :: escapeChars false 0 0 cs ++ ['"'] ++ rest) = some (cs, rest) := by
  have hfront : escapeChars false 0 0 cs ≠ [] → Clear '"' (escapeChars false 0 0 cs) := by
    intro hne
    cases cs with
    | nil => exact absurd rfl hne
    | cons c cs =>
      rw [escapeChars]
      split
      · simp [Clear]
      · rename_i hquote
        obtain ⟨hw, -⟩ | ⟨-, -, hw⟩ | ⟨name, hw, -⟩ := escapeChar_cases false c <;>
          simp [Clear, hw, hquote]
  have hlength := length_le_escapeChars false 0 0 cs
  rw [List.append_assoc, List.singleton_append, List.cons_append, readText_of_line hfront hrest,
    readLineText, basicBody_escapeChars cs (by rw [List.length_append]; omega)]
  rfl

theorem readText_literal {cs rest : List Char} (hcs : ∀ c ∈ cs, c ≠ '\'' ∧ isPlain c = true)
    (hrest : Clear '\'' rest) : readText ('\'' :: cs ++ ['\''] ++ rest) = some (cs, rest) := by
  have hfront : cs ≠ [] → Clear '\'' cs := by
    intro hne
    cases cs with
    | nil => exact absurd rfl hne
    | cons c cs => exact fun heq => (hcs c List.mem_cons_self).1 (Option.some.inj heq)
  rw [List.append_assoc, List.singleton_append, List.cons_append, readText_of_line hfront hrest,
    readLineText, literalBody_append hcs]
  rfl

/-- A break of lines after the opening quotes is there just when one may be dropped. -/
theorem dropOpening_opening {cs body : List Char}
    (hbody : '\n' ∉ cs → Clear '\n' body ∧ Clear '\r' body) :
    dropOpening (opening cs ++ body) = body := by
  unfold opening
  split
  · rfl
  · rename_i hbreak
    obtain ⟨hline, hreturn⟩ := hbody (by simpa using hbreak)
    unfold dropOpening newline?
    rw [List.nil_append]
    split
    · exact absurd rfl hline
    · exact absurd rfl hreturn
    · rfl

theorem readText_of_triple {q : Char} (hq : q = '"' ∨ q = '\'') (t : List Char) :
    readText (triple q ++ t) = multiBody q ((dropOpening t).length + 1) [] (dropOpening t) := by
  rcases hq with rfl | rfl <;> rfl

theorem readText_triple {q : Char} (hq : q = '"' ∨ q = '\'') {cs w rest : List Char}
    (h : Spelled q 0 cs w) (hfront : '\n' ∉ cs → Clear '\n' w ∧ Clear '\r' w)
    (hlength : cs.length ≤ w.length) (hrest : Clear q rest) :
    readText (triple q ++ opening cs ++ w ++ triple q ++ rest) = some (cs, rest) := by
  have hbody : dropOpening (opening cs ++ (w ++ (triple q ++ rest))) = w ++ (triple q ++ rest) := by
    refine dropOpening_opening fun hbreak => ?_
    cases w with
    | nil => rcases hq with rfl | rfl <;> exact ⟨by simp [Clear, triple], by simp [Clear, triple]⟩
    | cons c w => exact hfront hbreak
  have hfuel : 0 + cs.length < (w ++ (triple q ++ rest)).length + 1 := by
    rw [List.length_append]
    omega
  have hmulti := multiBody_of_spelled h hfuel [] hrest
  simp only [List.append_assoc]
  rw [readText_of_triple hq, hbody]
  exact hmulti

/-- No escaped text begins with a break of lines that is not its own. -/
theorem clear_escapeChars {cs : List Char} (hcs : '\n' ∉ cs) :
    Clear '\n' (escapeChars true 2 0 cs) ∧ Clear '\r' (escapeChars true 2 0 cs) := by
  cases cs with
  | nil => simp [Clear, escapeChars]
  | cons c cs =>
    rw [escapeChars]
    split
    · simp [Clear]
    · obtain ⟨hw, hplain, -⟩ | ⟨-, rfl, -⟩ | ⟨name, hw, -⟩ := escapeChar_cases true c
      · have hne : c ≠ '\n' ∧ c ≠ '\r' := by constructor <;> rintro rfl <;> simp [isPlain] at hplain
        simpa [Clear, hw] using hne
      · exact absurd List.mem_cons_self hcs
      · simp [Clear, hw]

theorem readText_escaped (cs : List Char) {rest : List Char} (hrest : Clear '"' rest) :
    readText (triple '"' ++ opening cs ++ escapeChars true 2 0 cs ++ triple '"' ++ rest) =
      some (cs, rest) :=
  readText_triple (.inl rfl) (spelled_escapeChars cs (Nat.zero_le 2)) clear_escapeChars
    (length_le_escapeChars true 2 0 cs) hrest

/-- A text is read back from its written form, unless a quote follows. -/
theorem readText_encodeChars (cs : List Char) {rest : List Char} (hbasic : Clear '"' rest)
    (hliteral : Clear '\'' rest) : readText (encodeChars cs ++ rest) = some (cs, rest) := by
  unfold encodeChars
  dsimp only
  -- The forms stand in the order in which the writer tries them.
  split
  · exact readText_basic cs hbasic
  split
  · rename_i hform
    simp only [Bool.and_eq_true, Bool.not_eq_true', List.any_eq_false, List.contains_eq_mem,
      decide_eq_false_iff_not] at hform
    obtain ⟨⟨hcontrol, hquote⟩, hbreak⟩ := hform
    refine readText_literal (fun c hc => ⟨fun heq => hquote (heq ▸ hc), ?_⟩) hliteral
    exact isPlain_of_not_control (Bool.not_eq_true _ ▸ hcontrol c hc) fun heq => hbreak (heq ▸ hc)
  split
  · exact readText_escaped cs hbasic
  split
  · rename_i hform
    simp only [Bool.and_eq_true, Bool.not_eq_true', List.any_eq_false, decide_eq_true_eq,
      Bool.not_eq_true] at hform
    obtain ⟨hcontrol, hrun⟩ := hform
    rw [longestRun_eq] at hrun
    refine readText_triple (.inr rfl) (spelled_literal hcontrol hrun (Nat.zero_le 2)) (fun hbreak => ?_)
      (Nat.le_refl _) hliteral
    cases cs with
    | nil => simp [Clear]
    | cons c cs =>
      have hplain := isPlain_of_not_control (hcontrol c List.mem_cons_self)
        fun heq => hbreak (heq ▸ List.mem_cons_self)
      constructor <;> rintro heq <;> simp [Option.some.inj heq, isPlain] at hplain
  split
  · exact readText_escaped cs hbasic
  · exact readText_basic cs hbasic

/-- A written form begins with a quote. -/
theorem encodeChars_eq_cons (cs : List Char) :
    ∃ q w, encodeChars cs = q :: w ∧ (q = '"' ∨ q = '\'') := by
  unfold encodeChars
  dsimp only
  split
  · exact ⟨_, _, rfl, .inl rfl⟩
  split
  · exact ⟨_, _, rfl, .inr rfl⟩
  split
  · exact ⟨_, _, rfl, .inl rfl⟩
  split
  · exact ⟨_, _, rfl, .inr rfl⟩
  split
  · exact ⟨_, _, rfl, .inl rfl⟩
  · exact ⟨_, _, rfl, .inl rfl⟩

end GameInstaller.Toml
