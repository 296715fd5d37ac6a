import GameInstaller.Proofs.Toml.Texts
import GameInstaller.Toml.Reader

/-!
# Documents of plain entries

A document with one line for each of its entries, whose keys are bare and given once, is read as
the table of these entries.

* `Written`   a form that is read as a value where a line ends
* `Entry`     an entry of the document: its key, its value, and the form of the value

## Key results

- `written_encode`, `written_boolean`: forms of texts and booleans
- `document_entry`: a line is read as its entry
- `document_entries`: the lines of a document are read as its entries
- `read?_entries`: a document is read as its table
-/

namespace GameInstaller.Toml

/-! ## Values -/

/-- A form that is read as a value where a line ends. -/
structure Written (form : List Char) (v : Value) : Prop where
  blank : skipSpace form = form
  nonempty : form ≠ []
  reads : ∀ fuel depth rest,
    value (fuel + 1) depth (form ++ '\n' :: rest) = some (v, '\n' :: rest)

/-- A text is read from its written form. -/
theorem written_encode (s : String) : Written (encode s).toList (.text s) := by
  obtain ⟨q, w, hw, hq⟩ := encodeChars_eq_cons s.toList
  rw [encode, String.toList_ofList]
  refine ⟨?_, by simp [hw], fun fuel depth rest => ?_⟩
  · rcases hq with rfl | rfl <;> rw [hw] <;> rfl
  · have hquote : Clear '"' ('\n' :: rest) := by simp [Clear]
    have hread := readText_encodeChars s.toList hquote
      (by simp [Clear])
    have hquote : (decide (q = '"') || decide (q = '\'')) = true := by simpa using hq
    rw [hw, List.cons_append] at hread ⊢
    rw [value]
    dsimp only
    rw [if_pos hquote, hread]
    simp

theorem written_boolean (b : Bool) :
    Written (if b then "true" else "false").toList (.boolean b) := by
  cases b
  · exact ⟨rfl, by decide, fun _ _ _ => by simp [value, scalar]⟩
  · exact ⟨rfl, by decide, fun _ _ _ => by simp [value, scalar]⟩

/-! ## Entries -/

/-- An entry of a document. -/
structure Entry where
  key : String
  form : List Char
  value : Value

namespace Entry

/-- The line of an entry. -/
def line (e : Entry) : List Char := e.key.toList ++ [' ', '=', ' '] ++ e.form ++ ['\n']

/-- An entry with a bare key whose form is read as its value. -/
structure Proper (e : Entry) : Prop where
  bare : ∀ c ∈ e.key.toList, isBareChar c = true
  nonempty : e.key.toList ≠ []
  written : Written e.form e.value

end Entry

/-- No character that opens or parts anything else is in a bare key. -/
theorem ne_of_bare {c d : Char} (hc : isBareChar c = true) (hd : isBareChar d = false) : c ≠ d := by
  rintro rfl
  exact absurd hc (by simp [hd])

section Lines

variable {e : Entry}

/-- The line of an entry begins with its key. -/
theorem Entry.Proper.front (h : e.Proper) (rest : List Char) :
    ∃ c r, e.line ++ rest = c :: r ∧ isBareChar c = true := by
  obtain ⟨c, r, hkey⟩ := List.exists_cons_of_ne_nil h.nonempty
  refine ⟨c, r ++ [' ', '=', ' '] ++ e.form ++ ['\n'] ++ rest, ?_, h.bare c (hkey ▸ List.mem_cons_self)⟩
  rw [Entry.line, hkey]
  simp

theorem Entry.Proper.skipSpace (h : e.Proper) (rest : List Char) :
    skipSpace (e.line ++ rest) = e.line ++ rest := by
  obtain ⟨c, r, hline, hc⟩ := h.front rest
  have hspace : c ≠ ' ' := ne_of_bare hc (by decide)
  have htab : c ≠ '\t' := ne_of_bare hc (by decide)
  rw [hline, Toml.skipSpace, List.dropWhile_cons_of_neg (by simp [hspace, htab])]

/-- The key of an entry is read up to its equals sign. -/
theorem key_line (h : e.Proper) (rest : List Char) (fuel : Nat) :
    key (fuel + 1) [] (e.line ++ rest) =
      some ([e.key], '=' :: ' ' :: (e.form ++ '\n' :: rest)) := by
  have hline : e.line ++ rest = e.key.toList ++ ' ' :: '=' :: ' ' :: (e.form ++ '\n' :: rest) := by
    simp [Entry.line]
  have hsimple : simpleKey (e.line ++ rest) =
      some (e.key, ' ' :: '=' :: ' ' :: (e.form ++ '\n' :: rest)) := by
    obtain ⟨c, r, hfront, hc⟩ := h.front rest
    -- The key has no quote in front, so it is read up to the blank behind it.
    have hquote : ¬(decide (c = '"') || decide (c = '\'')) = true := by
      simpa using ⟨ne_of_bare hc (by decide), ne_of_bare hc (by decide)⟩
    have htake : (c :: r).takeWhile isBareChar = e.key.toList := by
      rw [← hfront, hline, List.takeWhile_append_of_pos h.bare,
        List.takeWhile_cons_of_neg (by decide), List.append_nil]
    have hdrop : (c :: r).dropWhile isBareChar = ' ' :: '=' :: ' ' :: (e.form ++ '\n' :: rest) := by
      rw [← hfront, hline, List.dropWhile_append_of_pos h.bare,
        List.dropWhile_cons_of_neg (by decide)]
    rw [hfront, simpleKey]
    dsimp only
    rw [if_neg hquote, htake, hdrop, if_neg (by simpa using h.nonempty), String.ofList_toList]
  rw [key, h.skipSpace, hsimple]
  rfl

variable {es : Entries} (hnew : item? es e.key = none)
include hnew

theorem putUnder_new : putUnder [] [e.key] e.value es = some (es ++ [(e.key, .value e.value)]) := by
  simp [putUnder, putEntry, descend, hnew]

/-- A line puts its entry into the table. -/
theorem line_entry (h : e.Proper) (rest : List Char) :
    line [] es (e.line ++ rest) = some ([], es ++ [(e.key, .value e.value)], rest) := by
  obtain ⟨c, r, hfront, hc⟩ := h.front rest
  have hopen : c ≠ '[' := ne_of_bare hc (by decide)
  have hskip : Toml.skipSpace (' ' :: (e.form ++ '\n' :: rest)) = e.form ++ '\n' :: rest := by
    obtain ⟨d, w, hw⟩ := List.exists_cons_of_ne_nil h.written.nonempty
    have hblank := h.written.blank
    -- The form begins with no blank, so skipping stops there.
    rw [hw, Toml.skipSpace, List.dropWhile_cons] at hblank
    split at hblank
    · exact absurd (congrArg List.length hblank)
        (Nat.ne_of_lt (Nat.lt_succ_of_le (List.length_dropWhile_le _ _)))
    · rename_i hd
      rw [hw, Toml.skipSpace, List.dropWhile_cons_of_pos (by decide), List.cons_append,
        List.dropWhile_cons, if_neg hd]
  have hend : lineEnd ('\n' :: rest) = some rest := rfl
  unfold line
  -- A line that opens a table would begin with a bracket.
  split
  · rename_i heq
    exact absurd (List.cons.inj (hfront.symm.trans heq)).1 hopen
  · rename_i heq
    exact absurd (List.cons.inj (hfront.symm.trans heq)).1 hopen
  · rw [key_line h]
    simp only
    rw [hskip, h.written.reads]
    dsimp only
    rw [putUnder_new hnew, Option.bind_some, hend, Option.map_some]

/-- A line is read as its entry. -/
theorem document_entry (h : e.Proper) (rest : List Char) (fuel : Nat) :
    document (fuel + 1) [] es (e.line ++ rest) =
      document fuel [] (es ++ [(e.key, .value e.value)]) rest := by
  have hline := line_entry hnew h rest
  have hskip := h.skipSpace rest
  obtain ⟨c, r, hfront, hc⟩ := h.front rest
  have hbreak : newline? (c :: r) = none := by
    unfold newline?
    split
    · rename_i heq
      exact absurd (List.cons.inj heq).1 (ne_of_bare hc (by decide))
    · rename_i heq
      exact absurd (List.cons.inj heq).1 (ne_of_bare hc (by decide))
    · rfl
  rw [hfront] at hline hskip ⊢
  rw [document, hskip]
  split
  · rename_i heq
    cases heq
  · rename_i heq
    exact absurd (List.cons.inj heq).1 (ne_of_bare hc (by decide))
  · rw [hbreak]
    dsimp only
    rw [hline]

end Lines

/-! ## Documents -/

/-- The lines of a document are read as its entries, one after the other. -/
theorem document_entries {all : List Entry} (hall : ∀ e ∈ all, e.Proper)
    (hkeys : (all.map Entry.key).Nodup) {es : Entries} (hnew : ∀ e ∈ all, item? es e.key = none)
    (rest : List Char) (fuel : Nat) :
    document (all.length + fuel) [] es (all.flatMap Entry.line ++ rest) =
      document fuel [] (es ++ all.map fun e => (e.key, .value e.value)) rest := by
  induction all generalizing es with
  | nil => simp
  | cons e all ih =>
    obtain ⟨hfirst, hrest⟩ := List.forall_mem_cons.mp hall
    obtain ⟨hnewfirst, hnewrest⟩ := List.forall_mem_cons.mp hnew
    rw [List.map_cons, List.nodup_cons] at hkeys
    -- The key of the first entry is none of the others.
    have hnew' : ∀ e' ∈ all, item? (es ++ [(e.key, .value e.value)]) e'.key = none := by
      intro e' he'
      have hne : e.key ≠ e'.key := fun heq => hkeys.1 (List.mem_map.mpr ⟨e', he', heq.symm⟩)
      have hold := hnewrest e' he'
      simp only [item?, Option.map_eq_none_iff] at hold ⊢
      simp [List.find?_append, hold, hne]
    have hstep := document_entry hnewfirst hfirst (all.flatMap Entry.line ++ rest) (all.length + fuel)
    rw [List.flatMap_cons, List.append_assoc, List.length_cons, Nat.succ_add, hstep,
      ih hrest hkeys.2 hnew', List.map_cons, List.append_assoc, List.singleton_append]

theorem entriesToValues_map (all : List Entry) :
    entriesToValues (all.map fun e => (e.key, .value e.value)) =
      all.map fun e => (e.key, e.value) := by
  induction all with
  | nil => rfl
  | cons e all ih => rw [List.map_cons, List.map_cons, entriesToValues, ih, Item.toValue]

/-- Every entry has a line. -/
theorem length_le_lines (all : List Entry) : all.length ≤ (all.flatMap Entry.line).length := by
  induction all with
  | nil => exact Nat.zero_le _
  | cons e all ih =>
    have hline : 1 ≤ e.line.length := by
      rw [Entry.line, List.length_append]
      exact Nat.le_add_left 1 _
    rw [List.flatMap_cons, List.length_append, List.length_cons, Nat.add_comm]
    exact Nat.add_le_add hline ih

/-- A text without a byte order mark is read from its beginning. -/
theorem read?_of_clear {cs : List Char} (h : Clear '\uFEFF' cs) :
    read? cs = (document (cs.length + 2) [] [] cs).map entriesToValues := by
  unfold read?
  split
  · exact absurd rfl h
  · rfl

/-- A document of plain entries is read as their table. -/
theorem read?_entries {all : List Entry} (hall : ∀ e ∈ all, e.Proper)
    (hkeys : (all.map Entry.key).Nodup) :
    read? (all.flatMap Entry.line ++ ['\n']) = some (all.map fun e => (e.key, e.value)) := by
  have hclear : Clear '\uFEFF' (all.flatMap Entry.line ++ ['\n']) := by
    cases all with
    | nil => simp [Clear]
    | cons e all =>
      obtain ⟨c, r, hfront, hc⟩ :=
        (hall e List.mem_cons_self).front (all.flatMap Entry.line ++ ['\n'])
      rw [List.flatMap_cons, List.append_assoc, hfront]
      exact fun heq => ne_of_bare hc (by decide) (Option.some.inj heq)
  -- Each line takes one unit of the fuel, and has at least one character.
  obtain ⟨more, hmore⟩ := Nat.exists_eq_add_of_le (length_le_lines all)
  have hfuel : (all.flatMap Entry.line ++ ['\n']).length + 2 = all.length + (more + 3) := by
    rw [List.length_append, hmore]
    rfl
  rw [read?_of_clear hclear, hfuel, document_entries hall hkeys (fun _ _ => rfl), List.nil_append]
  exact congrArg some (entriesToValues_map all)

end GameInstaller.Toml
