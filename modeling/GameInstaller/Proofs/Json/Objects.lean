import GameInstaller.Json.Reader
import GameInstaller.Json.Writer
import GameInstaller.Proofs.Json.Numbers
import Mathlib.Data.Bool.AllAny
import Mathlib.Data.List.Basic
import Mathlib.Data.List.TakeWhile

/-!
# JSON objects on a line

Every text is read back from its quotes, whatever characters it has, and the quotes hold no control
character.  An object whose values are texts, flags and numbers is read back from its line, which holds
no control character.

* `ReadsOff`  a value that is read off the front of a text
* `Plain`     a text without control characters

## Key results

- `string_quoted`: a text is read back
- `not_control_quoted`: no line ends inside quotes
- `readsOff_string`, `readsOff_nat`, `readsOff_real`: values that are read off
- `read?_object`: an object of such values is read back
- `plain_object`: the line of an object is one line
-/

namespace GameInstaller.Json

open Decimal Reader

/-! ## Single characters -/

theorem hexValue?_hexDigit {n : Nat} (h : n < 16) : Text.hexValue? (Text.hexDigit n) = some n := by
  have hall : ∀ n < 16, Text.hexValue? (Text.hexDigit n) = some n := by decide
  exact hall n h

/-- The escape of a control character that has no short form. -/
theorem unicodeEscape_control {c : Char} (hc : c.toNat < 0x20) (rest : List Char) :
    unicodeEscape ('0' :: '0' :: Text.hexDigit (c.toNat / 16) :: Text.hexDigit (c.toNat % 16) :: rest) =
      some (c, rest) := by
  have hzero : Text.hexValue? '0' = some 0 := by decide
  have hhigh := hexValue?_hexDigit (show c.toNat / 16 < 16 by omega)
  have hlow := hexValue?_hexDigit (show c.toNat % 16 < 16 by omega)
  have hvalue : ((0 * 16 + 0) * 16 + c.toNat / 16) * 16 + c.toNat % 16 = c.toNat := by omega
  rw [unicodeEscape, hex4, hzero, hhigh, hlow]
  dsimp only
  rw [hvalue, if_neg (by omega), if_neg (by omega), Char.ofNat_toNat]

/-- An escaped character is read as what it was. -/
theorem stringBody_escapeChar (c : Char) (fuel : Nat) (acc rest : List Char) :
    stringBody (fuel + 1) acc (escapeChar c ++ rest) = stringBody fuel (c :: acc) rest := by
  unfold escapeChar
  split
  -- The characters with an escape of their own.
  iterate 7 rfl
  rename_i hquote hslash _ _ _ _ _
  split
  · rename_i hcontrol
    have hescape : escape ('u' :: '0' :: '0' :: Text.hexDigit (c.toNat / 16) ::
        Text.hexDigit (c.toNat % 16) :: rest) = some (c, rest) := unicodeEscape_control hcontrol rest
    simp [stringBody, hescape]
  · rename_i hcontrol
    have hquote' : c ≠ '"' := hquote
    have hslash' : c ≠ '\\' := hslash
    simp [stringBody, hquote', hslash', hcontrol]

/-- No escaped character is a control character. -/
theorem not_control_escapeChar (c : Char) : ∀ d ∈ escapeChar c, 0x20 ≤ d.toNat := by
  unfold escapeChar
  split
  iterate 7 exact List.all_iff_forall_prop.mp (by decide)
  split
  · have hdigit : ∀ n < 16, 0x20 ≤ (Text.hexDigit n).toNat := by decide
    have hhigh := hdigit (c.toNat / 16) (by omega)
    have hlow := hdigit (c.toNat % 16) (by omega)
    intro d hd
    simp only [List.mem_cons, List.not_mem_nil, or_false] at hd
    rcases hd with rfl | rfl | rfl | rfl | rfl | rfl <;> first | decide | assumption
  · simp_all

/-! ## Texts -/

theorem stringBody_escaped (cs : List Char) {fuel : Nat} (hfuel : cs.length < fuel)
    (acc rest : List Char) :
    stringBody fuel acc (cs.flatMap escapeChar ++ '"' :: rest) =
      some (String.ofList (acc.reverse ++ cs), rest) := by
  induction cs generalizing fuel acc with
  | nil =>
    obtain ⟨fuel, rfl⟩ := Nat.exists_eq_succ_of_ne_zero (Nat.ne_of_gt hfuel)
    simp [stringBody]
  | cons c cs ih =>
    obtain ⟨fuel, rfl⟩ := Nat.exists_eq_succ_of_ne_zero (Nat.ne_of_gt (Nat.zero_lt_of_lt hfuel))
    rw [List.flatMap_cons, List.append_assoc, stringBody_escapeChar,
      ih (by simpa using hfuel), List.reverse_cons, List.append_assoc, List.singleton_append]

theorem length_le_escaped (cs : List Char) : cs.length ≤ (cs.flatMap escapeChar).length := by
  induction cs with
  | nil => simp
  | cons c cs ih =>
    have hc : 1 ≤ (escapeChar c).length := by
      unfold escapeChar
      split
      iterate 7 simp
      split <;> simp
    simp only [List.length_cons, List.flatMap_cons, List.length_append]
    omega

/-- The characters of a text in quotes. -/
theorem quoted_toList (s : String) :
    (quoted s).toList = '"' :: s.toList.flatMap escapeChar ++ ['"'] :=
  String.toList_ofList

/-- A text is read back from its quotes. -/
theorem string_quoted (s : String) (rest : List Char) :
    string (s.toList.flatMap escapeChar ++ '"' :: rest) = some (s, rest) := by
  have hfuel : s.toList.length < (s.toList.flatMap escapeChar ++ '"' :: rest).length + 1 := by
    have hlen := length_le_escaped s.toList
    rw [List.length_append]
    omega
  rw [string, stringBody_escaped s.toList hfuel, List.reverse_nil, List.nil_append,
    String.ofList_toList]

/-- There is no control character inside quotes. -/
theorem not_control_quoted (s : String) : ∀ c ∈ (quoted s).toList, 0x20 ≤ c.toNat := by
  intro c hc
  rw [quoted_toList, List.cons_append, List.mem_cons, List.mem_append, List.mem_singleton,
    List.mem_flatMap] at hc
  rcases hc with rfl | ⟨d, -, hd⟩ | rfl
  · decide
  · exact not_control_escapeChar d c hd
  · decide

/-- A value is read off the front of a text that goes on behind it; spaces may be left before what
    goes on. -/
def ReadsOff (v : Value) : Prop :=
  ∀ fuel depth rest, Stops rest → ∃ spaces, (∀ c ∈ spaces, isSpace c = true) ∧
    value (fuel + 1) depth (v.compact.toList ++ rest) = some (v, spaces ++ rest)

/-- No character of a text is a control character. -/
def Plain (s : String) : Prop := ∀ c ∈ s.toList, 0x20 ≤ c.toNat

/-! ## Spaces -/

theorem skipSpace_cons {c : Char} (hc : isSpace c = false) (r : List Char) :
    skipSpace (c :: r) = c :: r := by
  simp [skipSpace, hc]

theorem skipSpace_append {spaces : List Char} (h : ∀ c ∈ spaces, isSpace c = true)
    (rest : List Char) : skipSpace (spaces ++ rest) = skipSpace rest := by
  induction spaces with
  | nil => rfl
  | cons c spaces ih =>
    rw [List.cons_append, skipSpace, List.dropWhile_cons, if_pos (h c List.mem_cons_self)]
    exact ih fun d hd => h d (List.mem_cons_of_mem _ hd)

theorem skipSpace_stops {rest : List Char} (h : Stops rest) : skipSpace rest = rest := by
  cases h <;> rfl

/-! ## Values -/

theorem readsOff_string (s : String) : ReadsOff (.string s) := by
  intro fuel depth rest _
  refine ⟨[], by simp, ?_⟩
  have htext : (Value.string s).compact.toList ++ rest =
      '"' :: (s.toList.flatMap escapeChar ++ '"' :: rest) := by
    rw [Value.compact, quoted_toList]
    simp
  rw [htext, value, skipSpace_cons (by decide)]
  change Option.map _ (string _) = _
  rw [string_quoted]
  rfl

theorem readsOff_bool (b : Bool) : ReadsOff (.bool b) := by
  intro fuel depth rest _
  refine ⟨[], by simp, ?_⟩
  cases b <;> rw [Value.compact, value] <;> rfl

/-- A value that starts with a digit is a number. -/
theorem value_of_digit {c : Char} (hc : isDigit c = true) (fuel depth : Nat) (r : List Char) :
    value (fuel + 1) depth (c :: r) =
      (number false (c :: r)).map fun (n, r) => (.number n, r) := by
  have hspace : isSpace c = false := by
    by_contra h
    rw [Bool.not_eq_false, isSpace] at h
    simp only [Bool.or_eq_true, beq_iff_eq] at h
    rcases h with ((rfl | rfl) | rfl) | rfl <;> exact absurd hc (by decide)
  have hne {d : Char} (hd : isDigit d = false) : c ≠ d := by
    rintro rfl
    rw [hc] at hd
    cases hd
  rw [value, skipSpace_cons hspace]
  split
  all_goals first | rfl | exact absurd (List.cons.inj ‹_›).1 (hne (by decide))

theorem value_of_minus (fuel depth : Nat) (r : List Char) :
    value (fuel + 1) depth ('-' :: r) = (number true r).map fun (n, r) => (.number n, r) := by
  rw [value, skipSpace_cons (by decide)]
  rfl

/-- A whole number below 2⁶⁴ is read off. -/
theorem readsOff_nat {n : Nat} (hn : n ≤ maxSignificand) : ReadsOff (.nat n) := by
  intro fuel depth rest hrest
  refine ⟨[], by simp, ?_⟩
  obtain ⟨c, r, hcr, hc⟩ := (numberChars_toDigits n).first
  have htext : (Value.nat n).compact.toList = Nat.toDigits 10 n := by
    rw [Value.nat, Value.compact, numberText, Nat.toString_eq_ofList_toDigits, String.toList_ofList]
  rw [htext, hcr, List.cons_append, value_of_digit hc, ← List.cons_append, ← hcr,
    number_append hrest, number_toDigits hn]
  rfl

/-- A real number that is read as it was written is read off. -/
theorem readsOff_real {x : Binary64}
    (h : read? (numberText (.real x)).toList = some (.number (.real x))) :
    ReadsOff (.number (.real x)) := by
  intro fuel depth rest hrest
  rw [Value.compact]
  -- What is read off the whole text is read off its front.
  have hfront (front : List Char) {negative : Bool} {cs : List Char}
      (hvalue : ∀ fuel depth ds, value (fuel + 1) depth (front ++ (cs ++ ds)) =
        (number negative (cs ++ ds)).map fun (n, r) => (.number n, r))
      (hread : read? (front ++ cs) = some (.number (.real x))) :
      ∃ spaces, (∀ c ∈ spaces, isSpace c = true) ∧
        value (fuel + 1) depth (front ++ cs ++ rest) = some (.number (.real x), spaces ++ rest) := by
    have hwhole := hvalue (2 * (front ++ cs).length + 1) 128 []
    rw [List.append_nil] at hwhole
    rw [read?, hwhole] at hread
    cases hnumber : number negative cs with
    | none => simp [hnumber] at hread
    | some read =>
      obtain ⟨n, spaces⟩ := read
      rw [hnumber] at hread
      dsimp only [Option.map_some] at hread
      split at hread
      · rename_i hempty
        obtain rfl : n = .real x := by simpa using hread
        refine ⟨spaces, ?_, ?_⟩
        · have hnil : spaces.dropWhile isSpace = [] := List.isEmpty_iff.mp hempty
          exact List.dropWhile_eq_nil_iff.mp hnil
        · rw [List.append_assoc, hvalue, number_append hrest, hnumber]
          rfl
      · cases hread
  rcases numberText_real_cases x with hnull | ⟨cs, hcs, htext | htext⟩
  · rw [hnull] at h
    have hread : read? "null".toList = some .null := rfl
    rw [hread] at h
    cases h
  · rw [htext] at h ⊢
    obtain ⟨c, r, rfl, hc⟩ := hcs.first
    exact hfront [] (fun fuel depth ds => value_of_digit hc fuel depth (r ++ ds)) h
  · rw [htext] at h ⊢
    exact hfront ['-'] (fun fuel depth ds => value_of_minus fuel depth (cs ++ ds)) h

/-! ## Entries -/

/-- The characters of an entry. -/
theorem entry_toList (k : String) (v : Value) :
    (quoted k ++ ":" ++ v.compact).toList =
      '"' :: (k.toList.flatMap escapeChar ++ '"' :: ':' :: v.compact.toList) := by
  rw [String.toList_append, String.toList_append, quoted_toList]
  simp

theorem compactEntries_cons (k : String) (v : Value) {es : List (String × Value)} (hes : es ≠ []) :
    compactEntries ((k, v) :: es) = quoted k ++ ":" ++ v.compact ++ "," ++ compactEntries es := by
  obtain ⟨e, es, rfl⟩ := List.exists_cons_of_ne_nil hes
  rw [compactEntries]
  simp

/-- What is done behind an entry: the next one is read, or the object is complete. -/
def behindEntry (fuel depth : Nat) (acc : List (String × Value)) : List Char → Step Value
  | ',' :: r => entries fuel depth acc r
  | '}' :: r => some (.object acc.reverse, r)
  | _ => none

/-- An entry is read. -/
theorem entries_entry {v : Value} (hv : ReadsOff v) (k : String) {rest : List Char}
    (hrest : Stops rest) (fuel depth : Nat) (acc : List (String × Value)) :
    entries (fuel + 2) depth acc ((quoted k ++ ":" ++ v.compact).toList ++ rest) =
      behindEntry (fuel + 1) depth ((k, v) :: acc) rest := by
  obtain ⟨spaces, hspaces, hvalue⟩ := hv fuel depth rest hrest
  rw [entry_toList, List.cons_append, List.append_assoc, List.cons_append, List.cons_append, entries,
    skipSpace_cons (by decide)]
  simp only [string_quoted]
  rw [skipSpace_cons (by decide)]
  simp only [hvalue, skipSpace_append hspaces, skipSpace_stops hrest]
  rfl

/-- Entries up to the brace are read back. -/
theorem entries_compact {es : List (String × Value)} (hne : es ≠ []) (hes : ∀ e ∈ es, ReadsOff e.2)
    {fuel : Nat} (hfuel : es.length < fuel) (depth : Nat) (acc : List (String × Value))
    (rest : List Char) :
    entries fuel depth acc ((compactEntries es).toList ++ '}' :: rest) =
      some (.object (acc.reverse ++ es), rest) := by
  induction es generalizing fuel acc with
  | nil => exact absurd rfl hne
  | cons e es ih =>
    obtain ⟨k, v⟩ := e
    have hv := hes _ List.mem_cons_self
    obtain ⟨fuel, rfl⟩ : ∃ n, fuel = n + 2 := ⟨fuel - 2, by simp at hfuel; omega⟩
    by_cases hes' : es = []
    · subst hes'
      rw [compactEntries, entries_entry hv k (.brace rest), behindEntry, List.reverse_cons]
    · rw [compactEntries_cons k v hes', String.toList_append, String.toList_append,
        List.append_assoc, List.append_assoc]
      have hcomma := entries_entry hv k (.comma ((compactEntries es).toList ++ '}' :: rest)) fuel depth
        acc
      refine hcomma.trans ?_
      rw [behindEntry, ih hes' (fun e he => hes e (List.mem_cons_of_mem _ he)) (by simpa using hfuel),
        List.reverse_cons, List.append_assoc, List.singleton_append]

theorem length_le_compactEntries (es : List (String × Value)) :
    es.length ≤ (compactEntries es).toList.length := by
  induction es with
  | nil => simp
  | cons e es ih =>
    obtain ⟨k, v⟩ := e
    have hentry : 1 ≤ (quoted k ++ ":" ++ v.compact).toList.length := by
      rw [entry_toList]
      simp
    by_cases hes : es = []
    · subst hes
      rwa [compactEntries]
    · rw [compactEntries_cons k v hes, String.toList_append, String.toList_append,
        List.length_append, List.length_append, List.length_cons]
      omega

/-! ## Objects -/

/-- The characters of an object. -/
theorem object_toList (es : List (String × Value)) :
    (Value.object es).compact.toList = '{' :: ((compactEntries es).toList ++ ['}']) := by
  rw [Value.compact, String.toList_append, String.toList_append]
  rfl

/-- An object is read back when its values are read off. -/
theorem read?_object {es : List (String × Value)} (hne : es ≠ []) (hes : ∀ e ∈ es, ReadsOff e.2) :
    read? (Value.object es).compact.toList = some (.object es) := by
  have hlen := length_le_compactEntries es
  have hentries := entries_compact hne hes
    (show es.length < 2 * (Value.object es).compact.toList.length + 1 by
      rw [object_toList]
      simp
      omega) 127 [] []
  obtain ⟨r, hr⟩ : ∃ r, (compactEntries es).toList ++ ['}'] = '"' :: r := by
    obtain ⟨⟨k, v⟩, es, rfl⟩ := List.exists_cons_of_ne_nil hne
    by_cases hes' : es = []
    · subst hes'
      exact ⟨_, by rw [compactEntries, entry_toList, List.cons_append]⟩
    · exact ⟨_, by rw [compactEntries_cons k v hes', String.toList_append, String.toList_append,
        entry_toList, List.cons_append, List.cons_append, List.cons_append]⟩
  have hvalue : value (2 * (Value.object es).compact.toList.length + 2) 128
      (Value.object es).compact.toList = some (.object es, []) := by
    rw [object_toList] at hentries ⊢
    rw [hr] at hentries ⊢
    rw [value, skipSpace_cons (by decide)]
    exact hentries
  rw [read?, hvalue]
  rfl

theorem plain_of_all {s : String} (h : s.toList.all (0x20 ≤ ·.toNat) = true) : Plain s :=
  List.all_iff_forall_prop.mp h

theorem plain_append {s t : String} (hs : Plain s) (ht : Plain t) : Plain (s ++ t) := by
  intro c hc
  rw [String.toList_append, List.mem_append] at hc
  exact hc.elim (hs c) (ht c)

theorem plain_compactEntries {es : List (String × Value)} (hes : ∀ e ∈ es, Plain e.2.compact) :
    Plain (compactEntries es) := by
  induction es with
  | nil =>
    rw [compactEntries]
    intro c hc
    simp at hc
  | cons e es ih =>
    obtain ⟨k, v⟩ := e
    have hentry : Plain (quoted k ++ ":" ++ v.compact) :=
      plain_append (plain_append (not_control_quoted k) (plain_of_all (by decide)))
        (hes _ List.mem_cons_self)
    by_cases hes' : es = []
    · subst hes'
      rwa [compactEntries]
    · rw [compactEntries_cons k v hes']
      exact plain_append (plain_append hentry (plain_of_all (by decide)))
        (ih fun e he => hes e (List.mem_cons_of_mem _ he))

/-- The line of an object is one line. -/
theorem plain_object {es : List (String × Value)} (hes : ∀ e ∈ es, Plain e.2.compact) :
    Plain (Value.object es).compact := by
  rw [Value.compact]
  exact plain_append (plain_append (plain_of_all (by decide)) (plain_compactEntries hes))
    (plain_of_all (by decide))

theorem plain_bool (b : Bool) : Plain (Value.bool b).compact := by
  cases b <;> rw [Value.compact] <;> exact plain_of_all (by decide)

theorem plain_nat (n : Nat) : Plain (Value.nat n).compact := by
  intro c hc
  rw [Value.nat, Value.compact, numberText, Nat.toString_eq_ofList_toDigits,
    String.toList_ofList] at hc
  exact (numberChars_toDigits n).plain c hc

theorem plain_string (s : String) : Plain (Value.string s).compact := by
  rw [Value.compact]
  exact not_control_quoted s

theorem plain_real (x : Binary64) : Plain (Value.number (.real x)).compact := by
  rw [Value.compact]
  intro c hc
  rcases numberText_real_cases x with htext | ⟨cs, hcs, htext | htext⟩ <;> rw [htext] at hc
  · exact plain_of_all (by decide) c hc
  · exact hcs.plain c hc
  · rcases List.mem_cons.mp hc with rfl | hc
    · decide
    · exact hcs.plain c hc

end GameInstaller.Json
