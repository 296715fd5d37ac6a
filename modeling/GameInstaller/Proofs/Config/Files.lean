import GameInstaller.Config.Store
import GameInstaller.Proofs.Disk.Replacing
import GameInstaller.Proofs.Journal.Appending
import GameInstaller.Proofs.Path.Components
import Mathlib.Data.List.TakeDrop

/-!
# The files of the store

Which files the store reads and writes for a game.  The store refuses no slug as the identifier of a
game.  What it saves is a file with the identifier in its name, so the identifier cannot be too long
for that.  An entry is written beside its file first, to a file that is that of no game, and nothing
else is written.

* `tempPath`  the file that an entry is written to first
* `saving`    the calls that save an entry
* `loading`   the calls that load one

## Key results

- `write_ne_invalidId`: a slug is never refused
- `name_of_write`: an entry that was saved has a name that is not too long for a file
- `write_eq`, `load_eq`: what is done for a slug
- `write_refused`, `load_refused`: what is done for other names
- `name_ne_temp`: the file beside that of one game is not that of another
-/

namespace GameInstaller

/-! ## Saving entries -/

namespace ConfigStore

variable {root : Path} {id : String} {entry : GameEntry} {d : Disk}

/-- A slug is never refused as an identifier. -/
theorem write_ne_invalidId (hslug : isSlug id = true) (root : Path) (entry : GameEntry) (d : Disk)
    (other : String) :
    (Disk.outcome (write root id entry) d).1 ≠ .error (.invalidId other) := by
  rw [write, if_pos hslug, Disk.outcome_bind_of_ok (Disk.outcome_attempt _ _)]
  split <;> nofun

theorem isName_entry (hslug : isSlug id = true) : Path.IsName (id ++ ".yml") := by
  have hname := Path.isName_of_isSlug hslug
  constructor
  · rw [String.toList_append, List.mem_append, not_or]
    exact ⟨hname.slash, by decide⟩
  · have hlen : 4 ≤ (id ++ ".yml").toList.length := by simp
    -- Only an empty segment and a dot name no entry, and both are shorter than the ending.
    match hcs : (id ++ ".yml").toList with
    | [] | [_] => simp [hcs] at hlen
    | a :: b :: cs => simp [Path.isSilent]

/-- An entry that was saved has a name that is not too long for a file. -/
theorem name_of_write (h : (Disk.outcome (write root id entry) d).1 = .ok ()) :
    (id ++ ".yml").utf8ByteSize ≤ Disk.maxName := by
  unfold write at h
  split at h
  · rename_i hslug
    rw [Disk.outcome_bind_of_ok (Disk.outcome_attempt _ _)] at h
    split at h
    · rename_i hreplaced
      obtain ⟨d₁, r, hr⟩ := Disk.resolve_of_replaceFile (Prod.ext hreplaced rfl)
      refine Disk.resolve_names _ _ hr (id ++ ".yml") ?_
      rw [entryPath, Path.segments_child _ (isName_entry hslug)]
      simp
    · cases h
  · cases h

end ConfigStore

/-! ## Calls -/

namespace Disk

/-- Calls that do the same on every disk are the same. -/
theorem call_ext {ε α : Type} {x y : Call ε α} (h : ∀ d, outcome x d = outcome y d) : x = y :=
  funext h

end Disk

namespace ConfigStore

open Disk (Call outcome)

/-- The file beside that of a game that its entry is written to first. -/
def tempPath (root : Path) (id : String) : Path := (entryPath root id).withExtension "yml.tmp"

/-- The directory of the files. -/
def gamesPath (root : Path) : Path := root.child "games"

/-- A call of the system, whose failure names the path that it concerns. -/
def concerning {α : Type} (p : Path) (x : Disk.Io α) : Call StoreError α := do
  match ← Disk.attempt x with
  | .ok a => pure a
  | .error e => throw (.io p e)

/-- Save an entry: make the directory `games`, write the file `temp` and give it the name `p`. -/
def saving (games temp p : Path) (entry : GameEntry) : Call StoreError Unit := do
  concerning games (Disk.createDirAll games)
  concerning temp (Disk.writeBytes temp entry.toYaml.toUTF8)
  concerning p (Disk.rename temp p)

/-- Load the entry in the file `p`, if there is one. -/
def loading (p : Path) : Call StoreError (Option GameEntry) := do
  if !(← get).pathExists p then pure none
  else
    match ← Disk.attempt (Disk.readText p) with
    | .error e => throw (.io p e)
    | .ok text =>
      match GameEntry.ofYaml? text with
      | some e => pure (some e)
      | none => throw (.format p)

theorem outcome_concerning {α : Type} (p : Path) (x : Disk.Io α) (d : Disk) :
    outcome (concerning p x) d = ((outcome x d).1.mapError (.io p), (outcome x d).2) := by
  unfold concerning
  rw [Disk.outcome_bind_of_ok (Disk.outcome_attempt _ _)]
  cases (outcome x d).1 <;> rfl

/-! ## Names -/

variable {root : Path} {id : String}

theorem isProper_games : Path.IsProper "games" := ⟨⟨by decide, by decide⟩, by decide⟩

/-- The file beside that of a game has the longer ending. -/
theorem tempPath_eq (hslug : isSlug id = true) (root : Path) :
    tempPath root id = (gamesPath root).child (id ++ ".yml.tmp") := by
  have hne : id ≠ "" := by
    rintro rfl
    exact absurd hslug (by decide)
  refine Path.withExtension_child _ (Path.isProper_append hslug ".yml" (by decide))
    (Path.isProper_append hslug ".yml.tmp" (by decide)).toIsName ?_
  have hstem : Path.stem (id ++ ".yml").toList = id.toList := by
    unfold Path.stem
    simp [List.span_eq_takeWhile_dropWhile, hne]
  rw [hstem]
  simp

theorem entryPath_below (hslug : isSlug id = true) (root : Path) :
    Path.Below root ["games", id ++ ".yml"] (entryPath root id) :=
  ((Path.Below.root_self root).child isProper_games).child
    (Path.isProper_append hslug ".yml" (by decide))

theorem tempPath_below (hslug : isSlug id = true) (root : Path) :
    Path.Below root ["games", id ++ ".yml.tmp"] (tempPath root id) := by
  rw [tempPath_eq hslug]
  exact ((Path.Below.root_self root).child isProper_games).child
    (Path.isProper_append hslug ".yml.tmp" (by decide))

theorem gamesPath_below (root : Path) : Path.Below root ["games"] (gamesPath root) :=
  (Path.Below.root_self root).child isProper_games

/-- The file beside that of a game is not the file of any game. -/
theorem name_ne_temp (id other : String) : id ++ ".yml" ≠ other ++ ".yml.tmp" := by
  intro h
  have hlast := congrArg (fun s => s.toList.getLast?) h
  simp [List.getLast?_append] at hlast

/-- Endings can be taken off names. -/
theorem append_ending_injective {id other ending : String} (h : id ++ ending = other ++ ending) :
    id = other := by
  have hchars := congrArg String.toList h
  rw [String.toList_append, String.toList_append, List.append_cancel_right_eq] at hchars
  exact String.toList_injective hchars

/-! ## What is done for a name -/

/-- What saving does for a slug. -/
theorem write_eq (hslug : isSlug id = true) (root : Path) (entry : GameEntry) :
    write root id entry =
      saving (gamesPath root) (tempPath root id) (entryPath root id) entry := by
  have hparent : (entryPath root id).parent? = some (gamesPath root) :=
    root.parent?_child isProper_games.toIsName (isName_entry hslug)
  refine Disk.call_ext fun d => ?_
  rw [write, if_pos hslug, saving, Disk.outcome_bind_of_ok (Disk.outcome_attempt _ _)]
  unfold Disk.replaceFile
  rw [hparent]
  simp only [Disk.outcome_bind, Disk.outcome_naming, outcome_concerning]
  -- Each of the three calls ends the saving when it fails.
  obtain ⟨made | _, d₁⟩ := outcome (Disk.createDirAll (gamesPath root)) d
  · rfl
  dsimp only [Except.mapError]
  rw [← tempPath]
  obtain ⟨written | _, d₂⟩ := outcome (Disk.writeBytes (tempPath root id) entry.toYaml.toUTF8) d₁
  · rfl
  dsimp only
  obtain ⟨named | _, d₃⟩ := outcome (Disk.rename (tempPath root id) (entryPath root id)) d₂ <;> rfl

/-- What loading does for a slug. -/
theorem load_eq (hslug : isSlug id = true) (root : Path) :
    load root id = loading (entryPath root id) :=
  if_pos hslug

/-- What is no slug is refused, and nothing is written. -/
theorem write_refused (hslug : isSlug id = false) (root : Path) (entry : GameEntry) (d : Disk) :
    outcome (write root id entry) d = (.error (.invalidId id), d) := by
  rw [write, if_neg (by simp [hslug])]
  rfl

theorem load_refused (hslug : isSlug id = false) (root : Path) (d : Disk) :
    outcome (load root id) d = (.error (.invalidId id), d) := by
  rw [load, if_neg (by simp [hslug])]
  rfl

/-- A slug is never refused as an identifier of an entry to load. -/
theorem load_ne_invalidId (hslug : isSlug id = true) (root : Path) (d : Disk) (other : String) :
    (outcome (load root id) d).1 ≠ .error (.invalidId other) := by
  rw [load_eq hslug, loading, Disk.outcome_bind_of_ok (Disk.outcome_get d)]
  split
  · nofun
  · rw [Disk.outcome_bind_of_ok (Disk.outcome_attempt _ _)]
    split
    · nofun
    · split <;> nofun

end ConfigStore

end GameInstaller
