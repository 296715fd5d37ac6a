import GameInstaller.Proofs.Disk.Beneath
import GameInstaller.Proofs.Toml.Entries
import GameInstaller.Settings

/-!
# Settings documents

The document of settings is read back as these settings, whatever the defaults are.  A table gives
the defaults with the values in it put in place of theirs; what it holds under other keys does not
matter.

* `Given`       what a key gives: the value there, or else the default
* `Gives`       the settings that a table gives
* `WellTyped`   a table whose values under the keys of settings have the types of these keys
* `Complete`    settings without an empty directory
* `FirstEmpty`  the first key in order whose directory is empty

## Key results

- `ofToml?_toToml`: the document of settings is read back
- `ofTable?_eq_some_iff`: what a table gives
- `WellTyped.exists_gives`: a table of the right types gives something
- `outcome_load_of_table`: how loading a file with such a table ends
-/

namespace GameInstaller.Settings

open Disk (outcome)

/-! ## The document -/

/-- The entry of a text. -/
def textEntry (key value : String) : Toml.Entry := ⟨key, (Toml.encode value).toList, .text value⟩

/-- The entries of the document of settings. -/
def entries (s : Settings) : List Toml.Entry :=
  (s.directories.map fun (key, p) => textEntry key p.text) ++
    [textEntry "elevate" s.elevate,
      ⟨"journal", (if s.journal then "true" else "false").toList, .boolean s.journal⟩]

/-- A line of the document. -/
theorem line_toList (key value : String) : (key ++ " = " ++ value ++ "\n").toList =
    key.toList ++ [' ', '=', ' '] ++ value.toList ++ ['\n'] := by
  simp

/-- The document has a line for each entry and an empty one. -/
theorem toToml_toList (s : Settings) :
    s.toToml.toList = s.entries.flatMap Toml.Entry.line ++ ['\n'] := by
  have hbreak : "\n".toList = ['\n'] := by simp
  -- The lines of the directories are joined with the others to the left.
  have hsplit (a b c d e f g h : String) : (a ++ b ++ c ++ d ++ e ++ f ++ g ++ h).toList =
      a.toList ++ (b.toList ++ (c.toList ++ (d.toList ++ (e.toList ++ (f.toList ++ g.toList))))) ++
        h.toList := by
    simp only [String.toList_append, List.append_assoc]
  unfold toToml
  dsimp only
  rw [hsplit, hbreak]
  simp only [line_toList, entries, directories, textEntry, Toml.Entry.line, List.map_cons,
    List.map_nil, List.cons_append, List.nil_append, List.flatMap_cons, List.flatMap_nil,
    List.append_nil]

theorem entries_keys (s : Settings) : s.entries.map Toml.Entry.key =
    ["games_dir", "cache_dir", "config_dir", "state_dir", "library_path", "elevate", "journal"] :=
  rfl

theorem proper_entries (s : Settings) : ∀ e ∈ s.entries, e.Proper := by
  have hbare : ∀ key ∈ s.entries.map Toml.Entry.key, key.toList.all Toml.isBareChar = true := by
    rw [entries_keys]
    decide
  have hnonempty : ∀ key ∈ s.entries.map Toml.Entry.key, key.toList ≠ [] := by
    rw [entries_keys]
    decide
  intro e he
  have hkey : e.key ∈ s.entries.map Toml.Entry.key := List.mem_map_of_mem he
  refine ⟨List.all_eq_true.mp (hbare e.key hkey), hnonempty e.key hkey, ?_⟩
  rw [entries, List.mem_append, List.mem_map] at he
  rcases he with ⟨⟨key, p⟩, -, rfl⟩ | he
  · exact Toml.written_encode p.text
  · simp only [List.mem_cons, List.not_mem_nil, or_false] at he
    rcases he with rfl | rfl
    · exact Toml.written_encode s.elevate
    · exact Toml.written_boolean s.journal

/-- Settings are read back from their document, whatever the defaults are. -/
theorem ofToml?_toToml (defaults s : Settings) : ofToml? defaults s.toToml = some s := by
  have hread := Toml.read?_entries s.proper_entries (by rw [entries_keys]; decide)
  rw [ofToml?, toToml_toList, hread, Option.bind_some]
  rfl

/-! ## Tables -/

/-- What a key gives: the value that is there, or the default when none is. -/
inductive Given {α : Type} (toValue : α → Toml.Value) (fallback : α) :
    Option Toml.Value → α → Prop where
  | missing : Given toValue fallback none fallback
  | given (a : α) : Given toValue fallback (some (toValue a)) a

/-- A path as the value of a table. -/
def pathValue (p : Path) : Toml.Value := .text p.text

/-- The settings that a table gives: each is what the table holds under its key, or the default. -/
structure Gives (table : List (String × Toml.Value)) (defaults s : Settings) : Prop where
  gamesDir : Given pathValue defaults.gamesDir (Toml.get? table "games_dir") s.gamesDir
  cacheDir : Given pathValue defaults.cacheDir (Toml.get? table "cache_dir") s.cacheDir
  configDir : Given pathValue defaults.configDir (Toml.get? table "config_dir") s.configDir
  stateDir : Given pathValue defaults.stateDir (Toml.get? table "state_dir") s.stateDir
  libraryPath : Given pathValue defaults.libraryPath (Toml.get? table "library_path") s.libraryPath
  elevate : Given .text defaults.elevate (Toml.get? table "elevate") s.elevate
  journal : Given .boolean defaults.journal (Toml.get? table "journal") s.journal

/-- The keys of texts. -/
def textKeys : List String :=
  ["games_dir", "cache_dir", "config_dir", "state_dir", "library_path", "elevate"]

/-- What a table holds under the keys of settings has the types of these keys. -/
structure WellTyped (table : List (String × Toml.Value)) : Prop where
  texts : ∀ key ∈ textKeys, ∀ v, Toml.get? table key = some v → ∃ t, v = .text t
  journal : ∀ v, Toml.get? table "journal" = some v → ∃ b, v = .boolean b

section Tables

variable {table : List (String × Toml.Value)} {defaults s : Settings}

theorem Given.unique {α : Type} {toValue : α → Toml.Value} (hinj : Function.Injective toValue)
    {fallback : α} {v : Option Toml.Value} {a b : α} (ha : Given toValue fallback v a)
    (hb : Given toValue fallback v b) : a = b := by
  cases ha with
  | missing => cases hb; rfl
  | given a =>
    generalize hv : some (toValue a) = v at hb
    cases hb with
    | missing => cases hv
    | given b => exact hinj (Option.some.inj hv)

theorem pathValue_injective : Function.Injective pathValue := by
  rintro ⟨t⟩ ⟨u⟩ h
  exact congrArg Path.mk (Toml.Value.text.inj h)

/-- A table gives at most one value for each. -/
theorem Gives.unique {s' : Settings} (h : Gives table defaults s) (h' : Gives table defaults s') :
    s = s' := by
  have htext : Function.Injective Toml.Value.text := fun _ _ => Toml.Value.text.inj
  have hboolean : Function.Injective Toml.Value.boolean := fun _ _ => Toml.Value.boolean.inj
  cases s
  cases s'
  -- One goal for each key.
  congr 1
  · exact h.gamesDir.unique pathValue_injective h'.gamesDir
  · exact h.cacheDir.unique pathValue_injective h'.cacheDir
  · exact h.configDir.unique pathValue_injective h'.configDir
  · exact h.stateDir.unique pathValue_injective h'.stateDir
  · exact h.libraryPath.unique pathValue_injective h'.libraryPath
  · exact h.elevate.unique htext h'.elevate
  · exact h.journal.unique hboolean h'.journal

theorem textKey_eq_some_iff {key fallback t : String} :
    textKey table key fallback = some t ↔ Given .text fallback (Toml.get? table key) t := by
  unfold textKey
  constructor
  · intro h
    split at h
    · obtain rfl := Option.some.inj h
      rename_i hv
      rw [hv]
      exact .missing
    · obtain rfl := Option.some.inj h
      rename_i hv
      rw [hv]
      exact .given _
    · cases h
  · intro h
    generalize Toml.get? table key = v at h
    cases h <;> rfl

theorem pathKey_eq_some_iff {key : String} {fallback p : Path} :
    (textKey table key fallback.text).map Path.mk = some p ↔
      Given pathValue fallback (Toml.get? table key) p := by
  rw [Option.map_eq_some_iff]
  constructor
  · rintro ⟨t, ht, rfl⟩
    rw [textKey_eq_some_iff] at ht
    generalize Toml.get? table key = v at ht ⊢
    cases ht with
    | missing => exact .missing
    | given t =>
      change Given pathValue fallback (some (pathValue ⟨t⟩)) ⟨t⟩
      exact .given _
  · intro h
    refine ⟨p.text, textKey_eq_some_iff.mpr ?_, rfl⟩
    generalize Toml.get? table key = v at h ⊢
    cases h with
    | missing => exact .missing
    | given p => exact .given p.text

/-- What a table gives is what is loaded from it. -/
theorem ofTable?_eq_some_iff : ofTable? defaults table = some s ↔ Gives table defaults s := by
  unfold ofTable?
  simp only [Option.bind_eq_bind, Option.bind_eq_some_iff, pathKey_eq_some_iff,
    textKey_eq_some_iff, Option.pure_def]
  constructor
  · rintro ⟨gamesDir, hgames, cacheDir, hcache, configDir, hconfig, stateDir, hstate, libraryPath,
      hlibrary, elevate, helevate, hjournal⟩
    split at hjournal
    · rename_i hv
      obtain rfl := Option.some.inj hjournal
      exact ⟨hgames, hcache, hconfig, hstate, hlibrary, helevate, hv ▸ .missing⟩
    · rename_i hv
      obtain rfl := Option.some.inj hjournal
      exact ⟨hgames, hcache, hconfig, hstate, hlibrary, helevate, hv ▸ .given _⟩
    · cases hjournal
  · intro h
    refine ⟨_, h.gamesDir, _, h.cacheDir, _, h.configDir, _, h.stateDir, _, h.libraryPath, _,
      h.elevate, ?_⟩
    have hjournal := h.journal
    generalize Toml.get? table "journal" = v at hjournal
    cases s
    cases hjournal <;> rfl

theorem exists_given {α : Type} {toValue : α → Toml.Value} (fallback : α) {v : Option Toml.Value}
    (hv : ∀ w, v = some w → ∃ a, w = toValue a) : ∃ a, Given toValue fallback v a := by
  cases v with
  | none => exact ⟨fallback, .missing⟩
  | some w =>
    obtain ⟨a, rfl⟩ := hv w rfl
    exact ⟨a, .given a⟩

/-- A table of the right types gives something. -/
theorem WellTyped.exists_gives (h : WellTyped table) (defaults : Settings) :
    ∃ s, Gives table defaults s := by
  have hpath (key : String) (hkey : key ∈ textKeys) (fallback : Path) :
      ∃ p, Given pathValue fallback (Toml.get? table key) p := by
    refine exists_given fallback fun w hw => ?_
    obtain ⟨t, rfl⟩ := h.texts key hkey w hw
    exact ⟨⟨t⟩, rfl⟩
  obtain ⟨gamesDir, hgames⟩ := hpath "games_dir" (by decide) defaults.gamesDir
  obtain ⟨cacheDir, hcache⟩ := hpath "cache_dir" (by decide) defaults.cacheDir
  obtain ⟨configDir, hconfig⟩ := hpath "config_dir" (by decide) defaults.configDir
  obtain ⟨stateDir, hstate⟩ := hpath "state_dir" (by decide) defaults.stateDir
  obtain ⟨libraryPath, hlibrary⟩ := hpath "library_path" (by decide) defaults.libraryPath
  obtain ⟨elevate, helevate⟩ :=
    exists_given defaults.elevate (h.texts "elevate" (by decide))
  obtain ⟨journal, hjournal⟩ := exists_given defaults.journal h.journal
  exact ⟨⟨gamesDir, cacheDir, configDir, stateDir, libraryPath, elevate, journal⟩,
    ⟨hgames, hcache, hconfig, hstate, hlibrary, helevate, hjournal⟩⟩

end Tables

/-! ## Empty directories -/

/-- No directory of the settings is empty. -/
def Complete (s : Settings) : Prop := ∀ key p, (key, p) ∈ s.directories → p.text ≠ ""

/-- The directory of a key is empty, and none of those before it in order is. -/
def FirstEmpty (s : Settings) (key : String) : Prop :=
  ∃ before p after, s.directories = before ++ (key, p) :: after ∧ p.text = "" ∧
    ∀ key' p', (key', p') ∈ before → p'.text ≠ ""

section Directories

variable {s : Settings}

/-- The keys of the directories, in the order in which they are checked. -/
theorem directories_keys (s : Settings) : s.directories.map Prod.fst =
    ["games_dir", "cache_dir", "config_dir", "state_dir", "library_path"] :=
  rfl

theorem validate_eq_ok (h : s.Complete) : s.validate = .ok () := by
  have hnone : s.directories.find? (fun (_, p) => p.text.isEmpty) = none :=
    List.find?_eq_none.mpr fun q hq => by simpa using h q.1 q.2 hq
  rw [validate, hnone]

theorem FirstEmpty.validate_eq_error {key : String} (h : s.FirstEmpty key) :
    s.validate = .error (.invalid key) := by
  obtain ⟨before, p, after, hdirs, hempty, hbefore⟩ := h
  have hfind : s.directories.find? (fun (_, p) => p.text.isEmpty) = some (key, p) := by
    rw [List.find?_eq_some_iff_append]
    refine ⟨by simpa using hempty, before, after, hdirs, fun q hq => ?_⟩
    simpa using hbefore q.1 q.2 hq
  rw [validate, hfind]

/-- When a directory is empty, there is a first one. -/
theorem complete_or_firstEmpty (s : Settings) : s.Complete ∨ ∃ key, s.FirstEmpty key := by
  cases hfind : s.directories.find? (fun (_, p) => p.text.isEmpty) with
  | none =>
    refine .inl fun key p hp => ?_
    simpa using List.find?_eq_none.mp hfind (key, p) hp
  | some q =>
    obtain ⟨hempty, before, after, hdirs, hbefore⟩ := List.find?_eq_some_iff_append.mp hfind
    refine .inr ⟨q.1, before, q.2, after, hdirs, by simpa using hempty, fun key p hp => ?_⟩
    simpa using hbefore (key, p) hp

end Directories

/-! ## Loading -/

section Loading

variable {d : Disk} {p : Path} {text : String} (env : Environment)

/-- How loading ends after the text of the file has given settings. -/
theorem outcome_load_of_text {s : Settings} (h : d.Holds p text.toUTF8)
    (hs : ofToml? (default env) text = some s) :
    outcome (load env p) d = (s.validate.map fun _ => s, d) := by
  obtain ⟨r, mode, shared, hr, hn⟩ := h
  unfold load
  rw [Disk.outcome_bind_of_ok (Disk.outcome_attempt _ _), Disk.outcome_readText_of_file hr hn]
  dsimp only
  rw [hs]
  dsimp only
  cases s.validate <;> rfl

/-- A file with a table of the right types is loaded as the defaults with the values of the table in
    place of theirs, or refused for the first empty directory. -/
theorem outcome_load_of_table {table : List (String × Toml.Value)} (h : d.Holds p text.toUTF8)
    (hread : Toml.read? text.toList = some table) (htyped : WellTyped table) :
    ∃ s, (∀ s', Gives table (default env) s' ↔ s' = s) ∧
      ((s.Complete ∧ outcome (load env p) d = (.ok s, d)) ∨
        ∃ key, s.FirstEmpty key ∧ outcome (load env p) d = (.error (.invalid key), d)) := by
  obtain ⟨s, hs⟩ := htyped.exists_gives (default env)
  have hof : ofToml? (default env) text = some s := by
    rw [ofToml?, hread, Option.bind_some, ofTable?_eq_some_iff]
    exact hs
  refine ⟨s, fun s' => ⟨fun hs' => hs'.unique hs, fun heq => heq ▸ hs⟩, ?_⟩
  rw [outcome_load_of_text env h hof]
  rcases s.complete_or_firstEmpty with hcomplete | ⟨key, hempty⟩
  · exact .inl ⟨hcomplete, by rw [validate_eq_ok hcomplete]; rfl⟩
  · exact .inr ⟨key, hempty, by rw [hempty.validate_eq_error]; rfl⟩

/-- Settings are loaded from a file with their document. -/
theorem outcome_load_of_holds {s : Settings} (hcomplete : s.Complete)
    (h : d.Holds p s.toToml.toUTF8) : outcome (load env p) d = (.ok s, d) := by
  rw [outcome_load_of_text env h (ofToml?_toToml _ s), validate_eq_ok hcomplete]
  rfl

end Loading

end GameInstaller.Settings
