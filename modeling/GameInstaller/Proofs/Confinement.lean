import GameInstaller.Proofs.Config.Files
import GameInstaller.Settings

/-!
# Where slugs lead

Slugs name directories and files under four roots: that of the games, that of the downloads, that of
the journals and that of the store.  Each of the four checks slugs on its own.  All of them refuse
the same names, and lead any other name to a path of its own that goes down from the root.

* `Confines`             a path is made for slugs only, and goes down from its root
* `ConfigStore.Confined` files are read and written for slugs only, and lie below the root

## Key results

- `ConfigStore.confined`: the files of the store
- `slugs_confined`: all four uses of slugs
-/

namespace GameInstaller

/-- Paths for names under roots: what is no slug is refused, a slug leads down from the root by
    names that it decides, and no two slugs lead to the same place. -/
structure Confines {ε : Type} (use : Path → String → Except ε Path) (refusal : String → ε)
    (names : String → List String) : Prop where
  refused {root : Path} {slug : String} : isSlug slug = false → use root slug = .error (refusal slug)
  accepted {root : Path} {slug : String} : isSlug slug = true →
    ∃ p, use root slug = .ok p ∧ Path.Below root (names slug) p
  distinct {root : Path} {slug other : String} {p q : Path} : use root slug = .ok p →
    use root other = .ok q → slug ≠ other → p.components ≠ q.components

/-- Names of which no two slugs have the same, each leading one step down. -/
theorem Confines.of_below {ε : Type} {use : Path → String → Except ε Path} {refusal : String → ε}
    {names : String → List String} {place : Path → String → Path}
    (huse : ∀ root slug, use root slug =
      if isSlug slug then .ok (place root slug) else .error (refusal slug))
    (hbelow : ∀ root slug, isSlug slug = true → Path.Below root (names slug) (place root slug))
    (hnames : Function.Injective names) : Confines use refusal names where
  refused hslug := by simp [huse, hslug]
  accepted {root slug} hslug := ⟨place root slug, by simp [huse, hslug], hbelow root slug hslug⟩
  distinct {root slug other p q} hp hq hne := by
    -- Only slugs lead somewhere.
    have hplace {name : String} {p : Path} (h : use root name = .ok p) :
        Path.Below root (names name) p := by
      rw [huse] at h
      split at h
      · rename_i hslug
        obtain rfl := Except.ok.inj h
        exact hbelow root name hslug
      · cases h
    exact fun hpq => hne (hnames ((hplace hp).unique (hplace hq) hpq))

theorem confines_slugDir :
    Confines Settings.slugDir SettingsError.invalidSlug fun slug => [slug] :=
  Confines.of_below (fun _ _ => rfl)
    (fun root _ hslug =>
      (Path.Below.root_self root).child (Path.isProper_of_isSlug hslug))
    fun _ _ => List.singleton_inj.mp

theorem confines_logPath :
    Confines Journal.logPath Journal.LogError.invalidName fun slug => [slug, "events.jsonl"] :=
  Confines.of_below (fun _ _ => rfl)
    (fun root _ hslug =>
      ((Path.Below.root_self root).child (Path.isProper_of_isSlug hslug)).child
        Journal.isProper_events)
    fun _ _ h => (List.cons.inj h).1

namespace ConfigStore

open Disk (outcome)

/-- Saving and loading are for slugs only, and go to files below the root.  No two games share a
    file, and the file that an entry is written to first is that of no game. -/
structure Confined (root : Path) : Prop where
  writeRefused {id : String} (entry : GameEntry) (d : Disk) : isSlug id = false →
    outcome (write root id entry) d = (.error (.invalidId id), d)
  loadRefused {id : String} (d : Disk) : isSlug id = false →
    outcome (load root id) d = (.error (.invalidId id), d)
  writeAccepted {id : String} (entry : GameEntry) : isSlug id = true →
    write root id entry = saving (gamesPath root) (tempPath root id) (entryPath root id) entry ∧
      ∀ d other, (outcome (write root id entry) d).1 ≠ .error (.invalidId other)
  loadAccepted {id : String} : isSlug id = true →
    load root id = loading (entryPath root id) ∧
      ∀ d other, (outcome (load root id) d).1 ≠ .error (.invalidId other)
  games : Path.Below root ["games"] (gamesPath root)
  entry {id : String} : isSlug id = true →
    Path.Below root ["games", id ++ ".yml"] (entryPath root id)
  temp {id : String} : isSlug id = true →
    Path.Below root ["games", id ++ ".yml.tmp"] (tempPath root id)
  distinct {id other : String} : isSlug id = true → isSlug other = true → id ≠ other →
    (entryPath root id).components ≠ (entryPath root other).components ∧
      (tempPath root id).components ≠ (tempPath root other).components
  apart {id other : String} : isSlug id = true → isSlug other = true →
    (tempPath root id).components ≠ (entryPath root other).components

theorem confined (root : Path) : Confined root where
  writeRefused entry d hslug := write_refused hslug root entry d
  loadRefused d hslug := load_refused hslug root d
  writeAccepted entry hslug := ⟨write_eq hslug root entry, write_ne_invalidId hslug root entry⟩
  loadAccepted hslug := ⟨load_eq hslug root, load_ne_invalidId hslug root⟩
  games := gamesPath_below root
  entry hslug := entryPath_below hslug root
  temp hslug := tempPath_below hslug root
  distinct {id other} hid hother hne := by
    have hlast {ending : String} (h : ["games", id ++ ending] = ["games", other ++ ending]) :
        id = other :=
      append_ending_injective (List.singleton_inj.mp (List.cons.inj h).2)
    exact ⟨fun h => hne (hlast ((entryPath_below hid root).unique (entryPath_below hother root) h)),
      fun h => hne (hlast ((tempPath_below hid root).unique (tempPath_below hother root) h))⟩
  apart {id other} hid hother h := by
    have hnames := (tempPath_below hid root).unique (entryPath_below hother root) h
    exact name_ne_temp other id (List.singleton_inj.mp (List.cons.inj hnames).2).symm

end ConfigStore

/-- Each use of a slug refuses what is no slug, and leads slugs to places of their own below its
    root. -/
theorem slugs_confined :
    (∀ s : Settings, Confines (fun root => { s with gamesDir := root }.gameDir)
      SettingsError.invalidSlug fun slug => [slug]) ∧
    (∀ s : Settings, Confines (fun root => { s with cacheDir := root }.gameCache)
      SettingsError.invalidSlug fun slug => [slug]) ∧
    Confines Journal.logPath Journal.LogError.invalidName (fun slug => [slug, "events.jsonl"]) ∧
    ∀ root, ConfigStore.Confined root :=
  ⟨fun _ => confines_slugDir, fun _ => confines_slugDir, confines_logPath, ConfigStore.confined⟩

/-- Endings of slugs do not make them meet. -/
example : (ConfigStore.tempPath ⟨"/c"⟩ "a", ConfigStore.entryPath ⟨"/c"⟩ "a.yml.tmp") =
    (⟨"/c/games/a.yml.tmp"⟩, ⟨"/c/games/a.yml.tmp.yml"⟩) := by
  decide +kernel

end GameInstaller
