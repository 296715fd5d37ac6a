import GameInstaller.Proofs.Path.Splitting
import GameInstaller.Proofs.Text
import GameInstaller.Runner.PackageManager

/-!
# Detecting the package manager

A distribution is described by lines that assign values to names.  The words of two of the values, `ID`
and `ID_LIKE`, are looked through for the identifier of a distribution that is known, in the order of
their lines.  A value may stand bare, in double quotes or in single ones; the reader takes off double
quotes, and sees the backslashes that stand in them for characters of the value.  No identifier has a
character in it that a backslash may stand before, so these do no harm.  Single quotes are left on the
first and the last word of a value.

* `Serves`, `FirstServed`    a word is an identifier; the answer for the first of some words that is one
* `Quoting`, `Spelling`      a value, and how it is written
* `Precedes`                 the lines of a name stand before those of another
* `Describes`                what a content assigns, each name at most once
* `DetectionAccount`         the answer for such a content, and for other orders of its lines

## Key results

- `readText_text`: the answer for a value as it is written is that for its words, but for single quotes
- `precedes_or`: of two names that are assigned at most once, one stands before the other
- `exists_content`: the lines of a content may be put in any order
- `detection_account`: the answer is that of the two values, in the order of their lines
-/

namespace GameInstaller.PackageManager

open Text (isBlank trimBoth words)

/-! ## Identifiers -/

/-- The identifiers of the distributions that a package manager serves. -/
def identifiers : PackageManager → List String
  | apt => ["debian", "ubuntu"]
  | dnf => ["fedora", "rhel", "centos"]

/-- A word is one of these identifiers, whatever the case of its letters. -/
def Serves (m : PackageManager) (word : List Char) : Prop :=
  ∃ id ∈ m.identifiers, word.map Char.toLower = id.toList

/-- The answer for the first of some words that is an identifier; none if there is no such word. -/
def FirstServed (ws : List (List Char)) : Option PackageManager → Prop
  | none => ∀ w ∈ ws, ∀ m : PackageManager, ¬ m.Serves w
  | some m => ∃ before w after, ws = before ++ w :: after ∧ m.Serves w ∧
      ∀ w' ∈ before, ∀ m' : PackageManager, ¬ m'.Serves w'

/-- The package manager of a word. -/
def ofWord? (word : List Char) : Option PackageManager :=
  ofIdentifier? (String.ofList (word.map Char.toLower))

theorem ofIdentifier?_eq_some_iff {id : String} {m : PackageManager} :
    ofIdentifier? id = some m ↔ id ∈ m.identifiers := by
  unfold ofIdentifier?
  cases m <;> grind [identifiers]

theorem ofWord?_eq_some_iff {word : List Char} {m : PackageManager} :
    ofWord? word = some m ↔ m.Serves word := by
  rw [ofWord?, ofIdentifier?_eq_some_iff, Serves]
  constructor
  · intro h
    exact ⟨_, h, String.toList_ofList.symm⟩
  · rintro ⟨id, hid, hword⟩
    rwa [hword, String.ofList_toList]

theorem ofWord?_eq_none_iff {word : List Char} :
    ofWord? word = none ↔ ∀ m : PackageManager, ¬ m.Serves word := by
  simp only [Option.eq_none_iff_forall_ne_some, ne_eq, ofWord?_eq_some_iff]

theorem firstServed_iff {ws : List (List Char)} {answer : Option PackageManager} :
    FirstServed ws answer ↔ ws.findSome? ofWord? = answer := by
  cases answer with
  | none => simp only [FirstServed, List.findSome?_eq_none_iff, ofWord?_eq_none_iff]
  | some m =>
    simp only [FirstServed, List.findSome?_eq_some_iff, ofWord?_eq_some_iff, ofWord?_eq_none_iff]

/-! ## Spellings -/

/-- How a value may be written. -/
inductive Quoting where
  | bare
  | double
  | single
  deriving DecidableEq, Repr

/-- A character that a backslash must stand before within double quotes. -/
def isEscaped (c : Char) : Bool := c == '"' || c == '\\' || c == '$' || c == '`'

/-- A character that has a meaning of its own in a value: one of these, or a single quote. -/
def isMark (c : Char) : Bool := isEscaped c || c == '\''

/-- The characters of a value within double quotes. -/
def escape (value : List Char) : List Char :=
  value.flatMap fun c => if isEscaped c then ['\\', c] else [c]

namespace Quoting

/-- The text of a value. -/
def spell (q : Quoting) (value : List Char) : List Char :=
  match q with
  | bare => value
  | double => '"' :: escape value ++ ['"']
  | single => '\'' :: value ++ ['\'']

/-- Which values may be written so. -/
def Allows (q : Quoting) (value : List Char) : Prop :=
  match q with
  | bare => ∀ c ∈ value, isBlank c = false ∧ isMark c = false
  | double => True
  | single => '\'' ∉ value

instance decidableAllows (q : Quoting) (value : List Char) : Decidable (q.Allows value) :=
  match q with
  | bare => List.decidableBAll _ value
  | double => .isTrue trivial
  | single => inferInstanceAs (Decidable ('\'' ∉ value))

end Quoting

/-- A value as it is assigned, with the blanks behind it. -/
structure Spelling where
  value : List Char
  quoting : Quoting
  blanks : List Char
  allowed : quoting.Allows value
  blank : ∀ c ∈ blanks, isBlank c = true

namespace Spelling

/-- What stands behind the equals sign. -/
def text (s : Spelling) : List Char := s.quoting.spell s.value ++ s.blanks

/-- The words that are made out: single quotes are taken for a part of the value. -/
def seen (s : Spelling) : List (List Char) :=
  match s.quoting with
  | .bare | .double => words s.value
  | .single => words ('\'' :: s.value ++ ['\''])

end Spelling

/-! ## Reading a value -/

/-- The answer for an assigned text. -/
def readText (text : List Char) : Option PackageManager :=
  (words (trimBoth (· == '"') (trimBoth isBlank text))).findSome? ofWord?

theorem isBlank_of_isMark {c : Char} (h : isMark c = true) : isBlank c = false := by
  simp only [isMark, isEscaped, Bool.or_eq_true, beq_iff_eq] at h
  rcases h with (((rfl | rfl) | rfl) | rfl) | rfl <;> decide

/-- No identifier has a mark in it. -/
theorem ofWord?_of_isMark {word : List Char} {c : Char} (hc : c ∈ word) (hmark : isMark c = true) :
    ofWord? word = none := by
  rw [ofWord?_eq_none_iff]
  rintro m ⟨id, hid, hword⟩
  have hlower : c.toLower = c := by
    simp only [isMark, isEscaped, Bool.or_eq_true, beq_iff_eq] at hmark
    rcases hmark with (((rfl | rfl) | rfl) | rfl) | rfl <;> decide
  have hmem : c ∈ id.toList := by
    rw [← hword, ← hlower]
    exact List.mem_map_of_mem hc
  have hall : m.identifiers.all (fun id => id.toList.all fun c => !isMark c) = true := by
    cases m <;> decide
  have hnone := List.all_eq_true.mp (List.all_eq_true.mp hall id hid) c hmem
  rw [hmark] at hnone
  cases hnone

/-- Two words are the same, or each has a mark in it. -/
def Like (w w' : List Char) : Prop :=
  w = w' ∨ (∃ c ∈ w, isMark c = true) ∧ ∃ c ∈ w', isMark c = true

namespace Like

variable {w w' : List Char}

theorem cons (h : Like w w') (c : Char) : Like (c :: w) (c :: w') := by
  rcases h with rfl | ⟨⟨a, ha, hmark⟩, b, hb, hmark'⟩
  · exact .inl rfl
  · exact .inr ⟨⟨a, List.mem_cons_of_mem c ha, hmark⟩, b, List.mem_cons_of_mem c hb, hmark'⟩

theorem marks {a b : Char} (ha : isMark a = true) (hb : isMark b = true) (w w' : List Char) :
    Like (a :: w) (b :: w') :=
  .inr ⟨⟨a, List.mem_cons_self, ha⟩, b, List.mem_cons_self, hb⟩

theorem isEmpty_eq (h : Like w w') : w.isEmpty = w'.isEmpty := by
  rcases h with rfl | ⟨⟨a, ha, -⟩, b, hb, -⟩
  · rfl
  · cases w <;> cases w' <;> simp_all

theorem ofWord?_reverse (h : Like w w') : ofWord? w.reverse = ofWord? w'.reverse := by
  rcases h with rfl | ⟨⟨a, ha, hmark⟩, b, hb, hmark'⟩
  · rfl
  · rw [ofWord?_of_isMark (List.mem_reverse.mpr ha) hmark,
      ofWord?_of_isMark (List.mem_reverse.mpr hb) hmark']

end Like

theorem go_of_not_isBlank {c : Char} (hc : isBlank c = false) (w cs : List Char) :
    words.go w (c :: cs) = words.go (c :: w) cs := by
  rw [words.go, if_neg (by simp [hc])]

/-- Words that are alike have one answer. -/
theorem findSome?_go_nil {w w' : List Char} (h : Like w w') :
    (words.go w []).findSome? ofWord? = (words.go w' []).findSome? ofWord? := by
  rw [words.go, words.go, h.isEmpty_eq]
  split
  · rfl
  · rw [List.findSome?_singleton, List.findSome?_singleton, h.ofWord?_reverse]

/-- Words are made out of escaped characters as of the characters themselves, but for words with marks,
    which are no identifiers. -/
theorem findSome?_go_escape (value : List Char) {tail tail' w w' : List Char}
    (htail : tail = [] ∧ tail' = [] ∨ tail = ['\\'] ∧ tail' = ['"']) (h : Like w w') :
    (words.go w (escape value ++ tail)).findSome? ofWord? =
      (words.go w' (value ++ tail')).findSome? ofWord? := by
  -- By induction on the value; the words under way are alike.
  induction value generalizing w w' with
  | nil =>
    rcases htail with ⟨rfl, rfl⟩ | ⟨rfl, rfl⟩
    · exact findSome?_go_nil h
    · exact findSome?_go_nil (.marks rfl rfl w w')
  | cons c value ih =>
    by_cases hescaped : isEscaped c = true
    · have hmark : isMark c = true := by simp [isMark, hescaped]
      have hc := isBlank_of_isMark hmark
      have hcons : escape (c :: value) = '\\' :: c :: escape value := by simp [escape, hescaped]
      rw [hcons, List.cons_append, List.cons_append, List.cons_append,
        go_of_not_isBlank (by decide), go_of_not_isBlank hc, go_of_not_isBlank hc]
      exact ih (.marks hmark hmark _ _)
    · have hcons : escape (c :: value) = c :: escape value := by simp [escape, hescaped]
      rw [hcons, List.cons_append, List.cons_append]
      by_cases hc : isBlank c = true
      · -- A blank ends the word under way on either side.
        have hrest := ih (.inl (rfl : ([] : List Char) = []))
        rw [words.go, words.go, if_pos hc, if_pos hc, h.isEmpty_eq]
        split
        · exact hrest
        · rw [List.findSome?_cons, List.findSome?_cons, h.ofWord?_reverse, hrest]
      · rw [go_of_not_isBlank (by simpa using hc), go_of_not_isBlank (by simpa using hc)]
        exact ih (h.cons c)

/-- What stands between two characters that stay is left. -/
theorem trimBoth_ends {p : Char → Bool} {first last : Char} (mid : List Char) {after : List Char}
    (hfirst : p first = false) (hlast : p last = false) (hafter : ∀ c ∈ after, p c = true) :
    trimBoth p (first :: mid ++ last :: after) = first :: mid ++ [last] := by
  rw [trimBoth, List.cons_append, List.dropWhile_cons_of_neg (by simp [hfirst]), ← List.cons_append,
    List.reverse_append, List.reverse_cons, List.append_assoc,
    List.dropWhile_append_of_pos (by simpa using hafter), List.singleton_append,
    List.dropWhile_cons_of_neg (by simp [hlast])]
  simp

/-- A value in double quotes does not begin with one. -/
theorem exists_escape_cons {value : List Char} (h : value ≠ []) :
    ∃ c cs, escape value = c :: cs ∧ c ≠ '"' := by
  obtain ⟨c, rest, rfl⟩ := List.exists_cons_of_ne_nil h
  by_cases hc : isEscaped c = true
  · exact ⟨'\\', c :: escape rest, by simp [escape, hc], by decide⟩
  · refine ⟨c, escape rest, by simp [escape, hc], ?_⟩
    rintro rfl
    exact hc rfl

/-- The double quotes around a value are taken off, and with them one that it ends in. -/
theorem trimBoth_double (value : List Char) :
    trimBoth (· == '"') ('"' :: escape value ++ ['"']) = escape value ∨ ∃ front, value = front ++ ['"'] ∧
      trimBoth (· == '"') ('"' :: escape value ++ ['"']) = escape front ++ ['\\'] := by
  rcases List.eq_nil_or_concat value with rfl | ⟨front, c, hvalue⟩
  · exact .inl rfl
  rw [List.concat_eq_append] at hvalue
  obtain ⟨a, cs, hescape, ha⟩ := exists_escape_cons (show value ≠ [] by simp [hvalue])
  have hfront : ('"' :: escape value ++ ['"']).dropWhile (· == '"') = escape value ++ ['"'] := by
    rw [hescape]
    simp [ha]
  have hlast : escape value = escape front ++ if isEscaped c then ['\\', c] else [c] := by
    rw [hvalue]
    simp [escape]
  rw [trimBoth, hfront, List.reverse_append, List.reverse_singleton, List.singleton_append,
    List.dropWhile_cons_of_pos rfl]
  by_cases hc : c = '"'
  · subst hc
    refine .inr ⟨front, hvalue, ?_⟩
    rw [hlast]
    simp [isEscaped]
  · refine .inl ?_
    rw [hlast]
    split <;> simp [hc]

/-- The answer for an assigned text is that for the words that are made out. -/
theorem readText_text (s : Spelling) : readText s.text = s.seen.findSome? ofWord? := by
  obtain ⟨value, quoting, blanks, hallowed, hblank⟩ := s
  cases quoting with
  | bare =>
    have hvalue : trimBoth isBlank ([] ++ value ++ blanks) = value :=
      Text.trimBoth_between (by simp) (fun c hc => (hallowed c hc).1) hblank
    have hquote : trimBoth (· == '"') ([] ++ value ++ []) = value := by
      refine Text.trimBoth_between (by simp) (fun c hc => ?_) (by simp)
      rw [beq_eq_false_iff_ne]
      rintro rfl
      cases (hallowed _ hc).2
    rw [List.nil_append] at hvalue
    rw [List.nil_append, List.append_nil] at hquote
    rw [readText, Spelling.text, Quoting.spell, hvalue, hquote]
    rfl
  | double =>
    have hvalue : trimBoth isBlank ('"' :: escape value ++ ['"'] ++ blanks) =
        '"' :: escape value ++ ['"'] := by
      rw [List.append_assoc, List.singleton_append]
      exact trimBoth_ends _ (by decide) (by decide) hblank
    rw [readText, Spelling.text, Quoting.spell, hvalue]
    have hlike : Like [] [] := .inl rfl
    rcases trimBoth_double value with htrim | ⟨front, rfl, htrim⟩
    · have h := findSome?_go_escape value (.inl ⟨rfl, rfl⟩) hlike
      rw [List.append_nil, List.append_nil] at h
      rw [htrim]
      exact h
    · rw [htrim]
      exact findSome?_go_escape front (.inr ⟨rfl, rfl⟩) hlike
  | single =>
    have hvalue : trimBoth isBlank ('\'' :: value ++ ['\''] ++ blanks) = '\'' :: value ++ ['\''] := by
      rw [List.append_assoc, List.singleton_append]
      exact trimBoth_ends value (by decide) (by decide) hblank
    have hquote : trimBoth (· == '"') ('\'' :: value ++ ['\'']) = '\'' :: value ++ ['\''] :=
      trimBoth_ends value (by decide) (by decide) (by simp)
    rw [readText, Spelling.text, Quoting.spell, hvalue, hquote]
    rfl

/-! ## Lines -/

/-- The text that a line assigns to a name. -/
def textOf? (name : String) (line : List Char) : Option (List Char) :=
  line.dropPrefix? (name.toList ++ ['='])

/-- The texts that lines assign to a name, in their order. -/
def assigned (name : String) (ls : List (List Char)) : List (List Char) := ls.filterMap (textOf? name)

variable {ls ls' : List (List Char)} {line : List Char}

theorem textOf?_eq_some_iff {name : String} {text : List Char} :
    textOf? name line = some text ↔ line = name.toList ++ '=' :: text := by
  rw [textOf?, List.dropPrefix?_eq_some_iff]
  simp

theorem splitAssignment_append {key : List Char} (hkey : '=' ∉ key) (text : List Char) :
    splitAssignment (key ++ '=' :: text) = some (key, text) := by
  induction key with
  | nil => rfl
  | cons c key ih =>
    rw [List.mem_cons, not_or] at hkey
    rw [List.cons_append, splitAssignment, if_neg (Ne.symm hkey.1), ih hkey.2]
    rfl

theorem eq_of_splitAssignment {key text : List Char} (h : splitAssignment line = some (key, text)) :
    line = key ++ '=' :: text := by
  induction line generalizing key with
  | nil => cases h
  | cons c line ih =>
    rw [splitAssignment] at h
    split at h
    · rename_i hc
      cases h
      rw [hc, List.nil_append]
    · obtain ⟨⟨key', text'⟩, hsplit, heq⟩ := Option.map_eq_some_iff.mp h
      cases heq
      rw [ih hsplit, List.cons_append]

/-- A line assigns to one name only. -/
theorem textOf?_like_of_id {text : List Char} (h : textOf? "ID" line = some text) :
    textOf? "ID_LIKE" line = none := by
  rw [Option.eq_none_iff_forall_ne_some]
  intro text' h'
  rw [textOf?_eq_some_iff] at h h'
  rw [h'] at h
  cases h

/-- A line without an equals sign assigns to no name. -/
theorem textOf?_of_splitAssignment_none (h : splitAssignment line = none) {name : String}
    (hname : '=' ∉ name.toList) : textOf? name line = none := by
  rw [Option.eq_none_iff_forall_ne_some]
  intro text htext
  rw [textOf?_eq_some_iff.mp htext, splitAssignment_append hname] at h
  cases h

/-- Another line assigns to what stands before its first equals sign. -/
theorem textOf?_of_splitAssignment {key text : List Char}
    (h : splitAssignment line = some (key, text)) {name : String} (hname : '=' ∉ name.toList) :
    textOf? name line = if key = name.toList then some text else none := by
  have hline := eq_of_splitAssignment h
  split
  · rename_i hkey
    exact textOf?_eq_some_iff.mpr (hkey ▸ hline)
  · rename_i hkey
    rw [Option.eq_none_iff_forall_ne_some]
    intro text' htext'
    rw [textOf?_eq_some_iff.mp htext', splitAssignment_append hname] at h
    exact hkey (Prod.mk.inj (Option.some.inj h)).1.symm

/-- What the identifiers of a line come to. -/
theorem findSome?_lineIdentifiers (line : List Char) :
    (lineIdentifiers line).findSome? ofIdentifier? =
      ((textOf? "ID" line).or (textOf? "ID_LIKE" line)).bind readText := by
  have hread (text : List Char) : ((words (trimBoth (· == '"') (trimBoth isBlank text))).map
      fun w => String.ofList (w.map Char.toLower)).findSome? ofIdentifier? = readText text := by
    rw [List.findSome?_map]
    rfl
  unfold lineIdentifiers
  cases hsplit : splitAssignment line with
  | none =>
    rw [textOf?_of_splitAssignment_none hsplit (by decide),
      textOf?_of_splitAssignment_none hsplit (by decide)]
    rfl
  | some assignment =>
    obtain ⟨key, text⟩ := assignment
    rw [textOf?_of_splitAssignment hsplit (by decide), textOf?_of_splitAssignment hsplit (by decide)]
    dsimp only
    by_cases hid : key = "ID".toList
    · rw [if_pos (by rw [hid]; rfl), if_pos hid]
      exact hread text
    rw [if_neg hid]
    by_cases hlike : key = "ID_LIKE".toList
    · rw [if_pos (by rw [hlike]; rfl), if_pos hlike]
      exact hread text
    · have hother : (key == "ID".toList || key == "ID_LIKE".toList) = false :=
        Bool.or_eq_false_iff.mpr ⟨beq_eq_false_iff_ne.mpr hid, beq_eq_false_iff_ne.mpr hlike⟩
      rw [if_neg (by rw [hother]; decide), if_neg hlike]
      rfl

/-- Lines that assign a name stand before all that assign another. -/
def Precedes (name name' : String) (ls : List (List Char)) : Prop :=
  ∃ before after, ls = before ++ after ∧ assigned name' before = [] ∧ assigned name after = []

theorem Precedes.reverse {name name' : String} (h : Precedes name name' ls) :
    Precedes name' name ls.reverse := by
  obtain ⟨before, after, rfl, hbefore, hafter⟩ := h
  refine ⟨after.reverse, before.reverse, List.reverse_append, ?_, ?_⟩
  · rw [assigned, List.filterMap_reverse, ← assigned, hafter, List.reverse_nil]
  · rw [assigned, List.filterMap_reverse, ← assigned, hbefore, List.reverse_nil]

/-- Of two names that are assigned at most once, one stands before the other. -/
theorem precedes_or (hid : (assigned "ID" ls).length ≤ 1) (hlike : (assigned "ID_LIKE" ls).length ≤ 1) :
    Precedes "ID" "ID_LIKE" ls ∨ Precedes "ID_LIKE" "ID" ls := by
  by_cases hnone : assigned "ID" ls = []
  · exact .inl ⟨[], ls, rfl, rfl, hnone⟩
  obtain ⟨text, htext⟩ := List.exists_mem_of_ne_nil _ hnone
  obtain ⟨line, hline, hassigns⟩ := List.mem_filterMap.mp htext
  obtain ⟨before, after, rfl⟩ := List.append_of_mem hline
  have hother := textOf?_like_of_id hassigns
  unfold assigned at hid hlike
  rw [List.filterMap_append, List.filterMap_cons_some hassigns, List.length_append,
    List.length_cons] at hid
  rw [List.filterMap_append, List.filterMap_cons_none hother, List.length_append] at hlike
  have hbefore : assigned "ID" before = [] := List.eq_nil_of_length_eq_zero (by unfold assigned; omega)
  have hafter : assigned "ID" after = [] := List.eq_nil_of_length_eq_zero (by unfold assigned; omega)
  -- The other name is assigned on one side of the line only.
  by_cases hside : assigned "ID_LIKE" before = []
  · refine .inl ⟨before ++ [line], after, by simp, ?_, hafter⟩
    rw [assigned, List.filterMap_append, ← assigned, hside, List.filterMap_cons_none hother]
    rfl
  · refine .inr ⟨before, line :: after, rfl, hbefore, ?_⟩
    have hpos : 0 < (List.filterMap (textOf? "ID_LIKE") before).length := List.length_pos_iff.mpr hside
    rw [assigned, List.filterMap_cons_none hother]
    exact List.eq_nil_of_length_eq_zero (by omega)

theorem findSome?_filterMap {α β γ : Type} (f : α → Option β) (g : β → Option γ) (xs : List α) :
    (xs.filterMap f).findSome? g = xs.findSome? fun x => (f x).bind g := by
  induction xs with
  | nil => rfl
  | cons x xs ih =>
    rw [List.findSome?_cons, ← ih]
    cases hx : f x with
    | none => rw [List.filterMap_cons_none hx]; rfl
    | some y => rw [List.filterMap_cons_some hx, List.findSome?_cons]; rfl

theorem findSome?_flatMap {α β γ : Type} (f : α → List β) (g : β → Option γ) (xs : List α) :
    (xs.flatMap f).findSome? g = xs.findSome? fun x => (f x).findSome? g := by
  induction xs with
  | nil => rfl
  | cons x xs ih =>
    rw [List.flatMap_cons, List.findSome?_append, ih, List.findSome?_cons]
    cases (f x).findSome? g <;> rfl

theorem findSome?_congr {α β : Type} {f g : α → Option β} {xs : List α} (h : ∀ x ∈ xs, f x = g x) :
    xs.findSome? f = xs.findSome? g := by
  induction xs with
  | nil => rfl
  | cons x xs ih =>
    obtain ⟨hx, hxs⟩ := List.forall_mem_cons.mp h
    rw [List.findSome?_cons, List.findSome?_cons, hx, ih hxs]

/-- What lines come to, when the texts that one name is assigned stand before those of another. -/
theorem findSome?_of_precedes {f : List Char → Option PackageManager} {name name' : String}
    (hf : ∀ line, f line = ((textOf? name line).or (textOf? name' line)).bind readText)
    (h : Precedes name name' ls) : ls.findSome? f =
      ((assigned name ls).findSome? readText).or ((assigned name' ls).findSome? readText) := by
  obtain ⟨before, after, rfl, hbefore, hafter⟩ := h
  rw [assigned, List.filterMap_eq_nil_iff] at hbefore hafter
  have hfront : before.findSome? f = (assigned name before).findSome? readText := by
    rw [assigned, findSome?_filterMap]
    exact findSome?_congr fun line hline => by rw [hf, hbefore line hline, Option.or_none]
  have hback : after.findSome? f = (assigned name' after).findSome? readText := by
    rw [assigned, findSome?_filterMap]
    exact findSome?_congr fun line hline => by rw [hf, hafter line hline, Option.none_or]
  have hname : assigned name (before ++ after) = assigned name before := by
    rw [assigned, List.filterMap_append, List.filterMap_eq_nil_iff.mpr hafter, List.append_nil, assigned]
  have hname' : assigned name' (before ++ after) = assigned name' after := by
    rw [assigned, List.filterMap_append, List.filterMap_eq_nil_iff.mpr hbefore, List.nil_append, assigned]
  rw [List.findSome?_append, hfront, hback, hname, hname']

/-! ## Contents -/

/-- The lines of a content. -/
def linesOf (content : String) : List (List Char) := Text.lines content.toList

/-- A content assigns each of the two names at most once, and these are the spellings of the values. -/
structure Describes (content : String) (id like : Option Spelling) : Prop where
  id : assigned "ID" (linesOf content) = (id.map Spelling.text).toList
  like : assigned "ID_LIKE" (linesOf content) = (like.map Spelling.text).toList

/-- The words that are made out of a value, if there is one. -/
def seenIn (s : Option Spelling) : List (List Char) := s.elim [] Spelling.seen

/-- The words of a value, if there is one. -/
def wordsIn (s : Option Spelling) : List (List Char) := s.elim [] fun s => words s.value

/-- Two values are those of distributions with different package managers. -/
def Disagree (id like : Option Spelling) : Prop :=
  ∃ m m', m ≠ m' ∧ FirstServed (seenIn id) (some m) ∧ FirstServed (seenIn like) (some m')

theorem mem_of_mem_dropReturn {c : Char} (h : c ∈ Text.dropReturn line) : c ∈ line := by
  unfold Text.dropReturn at h
  split at h
  · rename_i r hr
    have hc : c ∈ line.reverse := by
      rw [hr]
      exact List.mem_cons_of_mem _ (List.mem_reverse.mp h)
    exact List.mem_reverse.mp hc
  · exact h

/-- No line has a newline in it. -/
theorem newline_notMem_linesOf (content : String) : ∀ l ∈ linesOf content, '\n' ∉ l := by
  have hclosed (ps : List (List Char)) (hps : ∀ p ∈ ps, '\n' ∉ p) :
      ∀ l ∈ Text.closedLines ps, '\n' ∉ l := by
    fun_induction Text.closedLines ps with
    | case1 => simp
    | case2 => simp
    | case3 p => exact hps
    | case4 p ps _ ih =>
      obtain ⟨hp, hps⟩ := List.forall_mem_cons.mp hps
      exact List.forall_mem_cons.mpr ⟨fun h => hp (mem_of_mem_dropReturn h), ih hps⟩
  exact hclosed _ fun p hp => Text.not_mem_of_mem_pieces hp

/-- Lines that end in a carriage return and a newline are what a text made of them is cut into. -/
theorem lines_of_returned {ls : List (List Char)} (hls : ∀ l ∈ ls, '\n' ∉ l) :
    Text.lines (ls.flatMap fun l => l ++ ['\r', '\n']) = ls := by
  induction ls with
  | nil => rfl
  | cons l ls ih =>
    obtain ⟨hl, hls⟩ := List.forall_mem_cons.mp hls
    specialize ih hls
    obtain ⟨p, ps, hp⟩ := List.exists_cons_of_ne_nil
      (Text.pieces_ne_nil '\n' (ls.flatMap fun l => l ++ ['\r', '\n']))
    have hreturned : '\n' ∉ l ++ ['\r'] := by simp [hl]
    have hdrop : Text.dropReturn (l ++ ['\r']) = l := by simp [Text.dropReturn]
    have hfirst : l ++ ['\r', '\n'] = l ++ ['\r'] ++ ['\n'] := by simp
    rw [Text.lines, hp] at ih
    rw [Text.lines, List.flatMap_cons, hfirst, List.append_assoc, List.singleton_append,
      Text.pieces_append, Text.pieces_of_not_mem hreturned, hp, List.singleton_append,
      Text.closedLines, hdrop, ih]
    simp

/-- Lines of a content are the lines of some content, whatever their order. -/
theorem exists_content {content : String} (h : ls.Perm (linesOf content)) :
    ∃ content', linesOf content' = ls := by
  refine ⟨String.ofList (ls.flatMap fun l => l ++ ['\r', '\n']), ?_⟩
  rw [linesOf, String.toList_ofList]
  exact lines_of_returned fun l hl => newline_notMem_linesOf content l (h.mem_iff.mp hl)

theorem assigned_perm {name : String} {text : Option (List Char)} (h : ls'.Perm ls)
    (hname : assigned name ls = text.toList) : assigned name ls' = text.toList := by
  have hperm : (assigned name ls').Perm (assigned name ls) := h.filterMap _
  rw [hname] at hperm
  cases text with
  | none => exact hperm.eq_nil
  | some t => exact List.perm_singleton.mp hperm

variable {content content' : String} {id like : Option Spelling}

/-- What a content describes does not hang on the order of its lines. -/
theorem Describes.of_perm (h : Describes content id like)
    (hperm : (linesOf content').Perm (linesOf content)) : Describes content' id like :=
  ⟨assigned_perm hperm h.id, assigned_perm hperm h.like⟩

theorem findSome?_readText (s : Option Spelling) :
    (s.map Spelling.text).toList.findSome? readText = (seenIn s).findSome? ofWord? := by
  cases s with
  | none => rfl
  | some s =>
    rw [Option.map_some, Option.toList_some, List.findSome?_singleton, readText_text]
    rfl

theorem ofOsRelease_eq (content : String) : ofOsRelease content =
    (linesOf content).findSome? fun line => (lineIdentifiers line).findSome? ofIdentifier? := by
  rw [ofOsRelease, findSome?_flatMap, linesOf]

/-- If `ID` stands before `ID_LIKE`, its words do. -/
theorem Describes.of_id_first (h : Describes content id like)
    (horder : Precedes "ID" "ID_LIKE" (linesOf content)) :
    ofOsRelease content = ((seenIn id).findSome? ofWord?).or ((seenIn like).findSome? ofWord?) := by
  rw [ofOsRelease_eq, findSome?_of_precedes findSome?_lineIdentifiers horder, h.id, h.like,
    findSome?_readText, findSome?_readText]

/-- If `ID_LIKE` stands before `ID`, its words do. -/
theorem Describes.of_like_first (h : Describes content id like)
    (horder : Precedes "ID_LIKE" "ID" (linesOf content)) :
    ofOsRelease content = ((seenIn like).findSome? ofWord?).or ((seenIn id).findSome? ofWord?) := by
  have hline (line : List Char) : (lineIdentifiers line).findSome? ofIdentifier? =
      ((textOf? "ID_LIKE" line).or (textOf? "ID" line)).bind readText := by
    rw [findSome?_lineIdentifiers]
    cases hid : textOf? "ID" line with
    | none => rw [Option.none_or, Option.or_none]
    | some text => rw [textOf?_like_of_id hid, Option.none_or, Option.or_none]
  rw [ofOsRelease_eq, findSome?_of_precedes hline horder, h.id, h.like, findSome?_readText,
    findSome?_readText]

theorem Describes.precedes_or (h : Describes content id like) :
    Precedes "ID" "ID_LIKE" (linesOf content) ∨ Precedes "ID_LIKE" "ID" (linesOf content) :=
  PackageManager.precedes_or (by rw [h.id]; exact Option.length_toList_le)
    (by rw [h.like]; exact Option.length_toList_le)

/-- The order of two answers matters if they are different. -/
theorem or_comm_iff : ((seenIn id).findSome? ofWord?).or ((seenIn like).findSome? ofWord?) =
    ((seenIn like).findSome? ofWord?).or ((seenIn id).findSome? ofWord?) ↔ ¬ Disagree id like := by
  unfold Disagree
  simp only [firstServed_iff]
  cases (seenIn id).findSome? ofWord? with
  | none => simp
  | some m =>
    cases (seenIn like).findSome? ofWord? with
    | none => simp
    | some m' => simp [eq_comm]

/-- Every order of the lines comes to the same if both orders of the two names do. -/
theorem Describes.forall_perm_iff (h : Describes content id like) {answer : Option PackageManager} :
    (∀ content', (linesOf content').Perm (linesOf content) → ofOsRelease content' = answer) ↔
      ((seenIn id).findSome? ofWord?).or ((seenIn like).findSome? ofWord?) = answer ∧
        ((seenIn like).findSome? ofWord?).or ((seenIn id).findSome? ofWord?) = answer := by
  constructor
  · intro hall
    -- One of the two orders is that of the content, and the other that of its lines from the last on.
    obtain ⟨content', hlines⟩ := exists_content (List.reverse_perm (linesOf content))
    have hperm : (linesOf content').Perm (linesOf content) := hlines ▸ List.reverse_perm _
    have h' := h.of_perm hperm
    have hfirst := hall content (List.Perm.refl _)
    have hsecond := hall content' hperm
    rcases h.precedes_or with horder | horder
    · have horder' := hlines ▸ horder.reverse
      exact ⟨(h.of_id_first horder).symm.trans hfirst, (h'.of_like_first horder').symm.trans hsecond⟩
    · have horder' := hlines ▸ horder.reverse
      exact ⟨(h'.of_id_first horder').symm.trans hsecond, (h.of_like_first horder).symm.trans hfirst⟩
  · rintro ⟨hid, hlike⟩ content' hperm
    have h' := h.of_perm hperm
    rcases h'.precedes_or with horder | horder
    · exact (h'.of_id_first horder).trans hid
    · exact (h'.of_like_first horder).trans hlike

theorem seenIn_eq_wordsIn {s : Option Spelling} (h : ∀ s', s = some s' → s'.quoting ≠ .single) :
    seenIn s = wordsIn s := by
  cases s with
  | none => rfl
  | some s =>
    specialize h s rfl
    change s.seen = words s.value
    unfold Spelling.seen
    split
    · rfl
    · rfl
    · exact absurd ‹_› h

/-- Characters without blanks end the word under way. -/
theorem go_of_forall_not_isBlank {cs w : List Char} (h : ∀ c ∈ cs, isBlank c = false)
    (hne : w.reverse ++ cs ≠ []) : words.go w cs = [w.reverse ++ cs] := by
  induction cs generalizing w with
  | nil =>
    rw [List.append_nil] at hne ⊢
    rw [words.go, if_neg (by simpa using hne)]
  | cons c cs ih =>
    obtain ⟨hc, hcs⟩ := List.forall_mem_cons.mp h
    rw [go_of_not_isBlank hc, ih hcs (by simp)]
    simp

/-- One word in single quotes is made out as a word with them. -/
theorem Spelling.seen_of_word {s : Spelling} (hsingle : s.quoting = .single)
    (hvalue : ∀ c ∈ s.value, isBlank c = false) : s.seen = ['\'' :: s.value ++ ['\'']] := by
  have hblank : ∀ c ∈ '\'' :: s.value ++ ['\''], isBlank c = false := by
    simp only [List.mem_append, List.mem_cons, List.not_mem_nil, or_false]
    rintro c ((rfl | hc) | rfl)
    · decide
    · exact hvalue c hc
    · decide
  rw [seen, hsingle]
  exact go_of_forall_not_isBlank hblank (List.cons_ne_nil _ _)

/-! ## What is detected -/

/-- What is promised of a content that assigns each of the two names at most once. -/
structure DetectionAccount (content : String) (id like : Option Spelling) : Prop where
  /-- One of the names stands before the other. -/
  ordered : Precedes "ID" "ID_LIKE" (linesOf content) ∨ Precedes "ID_LIKE" "ID" (linesOf content)
  /-- The answer is that of the first identifier of the words of the name that stands first, and then of
      those of the other. -/
  idFirst : Precedes "ID" "ID_LIKE" (linesOf content) →
    FirstServed (seenIn id ++ seenIn like) (ofOsRelease content)
  likeFirst : Precedes "ID_LIKE" "ID" (linesOf content) →
    FirstServed (seenIn like ++ seenIn id) (ofOsRelease content)
  /-- The order of the lines makes no difference if the two values do not disagree, and only then. -/
  reordered : (∀ content', (linesOf content').Perm (linesOf content) →
    ofOsRelease content' = ofOsRelease content) ↔ ¬ Disagree id like
  /-- Without single quotes, the answer is in every order that of the words of `ID` and then of `ID_LIKE`,
      if the two values do not disagree, and only then. -/
  asAssigned : (∀ s, id = some s ∨ like = some s → s.quoting ≠ .single) →
    ((∀ content', (linesOf content').Perm (linesOf content) →
      FirstServed (wordsIn id ++ wordsIn like) (ofOsRelease content')) ↔ ¬ Disagree id like)
  /-- In single quotes a value that is one word is no identifier. -/
  unread : ∀ s, id = some s ∨ like = some s → s.quoting = .single →
    (∀ c ∈ s.value, isBlank c = false) → FirstServed s.seen none

/-- The account holds of every content that assigns each of the two names at most once. -/
theorem detection_account {content : String} {id like : Option Spelling}
    (h : Describes content id like) : DetectionAccount content id like where
  ordered := h.precedes_or
  idFirst horder := by
    rw [firstServed_iff, List.findSome?_append, h.of_id_first horder]
  likeFirst horder := by
    rw [firstServed_iff, List.findSome?_append, h.of_like_first horder]
  reordered := by
    rw [h.forall_perm_iff, ← or_comm_iff]
    constructor
    · rintro ⟨hid, hlike⟩
      exact hid.trans hlike.symm
    · intro hcomm
      rcases h.precedes_or with horder | horder
      · rw [h.of_id_first horder]
        exact ⟨rfl, hcomm.symm⟩
      · rw [h.of_like_first horder]
        exact ⟨hcomm, rfl⟩
  asAssigned hquoting := by
    rw [← seenIn_eq_wordsIn fun s hs => hquoting s (.inl hs),
      ← seenIn_eq_wordsIn fun s hs => hquoting s (.inr hs), ← or_comm_iff]
    simp only [firstServed_iff, List.findSome?_append, eq_comm (b := ofOsRelease _)]
    rw [h.forall_perm_iff]
    exact ⟨fun hboth => hboth.2.symm, fun hcomm => ⟨rfl, hcomm.symm⟩⟩
  unread s _ hsingle hvalue := by
    rw [firstServed_iff, Spelling.seen_of_word hsingle hvalue, List.findSome?_singleton]
    exact ofWord?_of_isMark List.mem_cons_self rfl

/-- A distribution that is like others. -/
def mint : String := "NAME=\"Linux Mint\"\n# Derived\nID=linuxmint\nID_LIKE=\"Ubuntu debian\" \n"

/-- A bare word. -/
def bareWord (word : String) (h : Quoting.bare.Allows word.toList) : Spelling :=
  ⟨word.toList, .bare, [], h, by simp⟩

theorem detection_account_mint :
    let id := bareWord "linuxmint" (by decide)
    let like : Spelling := ⟨"Ubuntu debian".toList, .double, [' '], trivial, by simp; decide⟩
    Describes mint (some id) (some like) ∧ DetectionAccount mint (some id) (some like) ∧
      ofOsRelease mint = some .apt := by
  intro id like
  have h : Describes mint (some id) (some like) := ⟨by decide, by decide⟩
  exact ⟨h, detection_account h, by decide⟩

/-! ## Distributions that are mistaken -/

def debian : Spelling := bareWord "debian" (by decide)

def fedora : Spelling := bareWord "fedora" (by decide)

/-- The word in single quotes. -/
def debianQuoted : Spelling := ⟨"debian".toList, .single, [], by decide, by simp⟩

/-- A value in single quotes is not read, and of two values that disagree the first line has its way. -/
theorem exists_distribution_mistaken :
    (∃ content s, Describes content (some s) none ∧ s.quoting = .single ∧
      FirstServed (words s.value) (some .apt) ∧ ofOsRelease content = none) ∧
    ∃ content content' id like, Describes content id like ∧ Describes content' id like ∧
      (linesOf content').Perm (linesOf content) ∧
      FirstServed (wordsIn id ++ wordsIn like) (some .apt) ∧
      ofOsRelease content' = some .apt ∧ ofOsRelease content = some .dnf := by
  constructor
  · exact ⟨"ID='debian'\n", debianQuoted, ⟨by decide, by decide⟩, rfl, firstServed_iff.mpr (by decide),
      by decide⟩
  · exact ⟨"ID_LIKE=fedora\nID=debian\n", "ID=debian\nID_LIKE=fedora\n", some debian, some fedora,
      ⟨by decide, by decide⟩, ⟨by decide, by decide⟩, by decide, firstServed_iff.mpr (by decide),
      by decide, by decide⟩

end GameInstaller.PackageManager
