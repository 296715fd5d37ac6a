import GameInstaller.Config.Store
import GameInstaller.Proofs.Config.Settings
import GameInstaller.Proofs.Disk.Finding

/-!
# Saving settings and entries

Settings and the entries of games are saved by replacing files, and only when nothing is wrong with
them: settings with an empty directory, and entries of what is no slug, are refused before any call is
made.  What is saved is there as a whole or not at all, whichever calls fail, if the file beside the one
that is replaced is spare.  If a link to the file is there, the file is lost.

* `Settings.saveBy`, `ConfigStore.writeBy`  saving by calls that may fail
* `Torn`                                    calls of which writing stops after some bytes
* `Linked`                                  a disk with a link to the file of a game beside it

## Key results

- `saved_atomically`: settings and entries are saved as a whole or not at all
- `exists_entry_lost`: an entry is lost though saving it succeeds
-/

namespace GameInstaller

open Disk (Accessible Atomic Call Holds Kept Names ReplaceCalls Replaceable Spare Swapped Tree outcome)

/-! ## Saving by calls that may fail -/

/-- Save settings by these calls. -/
def Settings.saveBy (calls : ReplaceCalls) (s : Settings) (p : Path) : Call SettingsError Unit := do
  match s.validate with
  | .error e => throw e
  | .ok () =>
    match ← Disk.attempt (calls.replaceFile p "toml.tmp" s.toToml.toUTF8) with
    | .ok () => pure ()
    | .error e => throw (.io e.path e.cause)

theorem Settings.saveBy_system : saveBy ReplaceCalls.system = save := rfl

/-- Save the entry of a game by these calls. -/
def ConfigStore.writeBy (calls : ReplaceCalls) (root : Path) (id : String) (entry : GameEntry) :
    Call StoreError Unit := do
  if isSlug id then
    match ← Disk.attempt (calls.replaceFile (entryPath root id) "yml.tmp" entry.toYaml.toUTF8) with
    | .ok () => pure ()
    | .error e => throw (.io e.path e.cause)
  else throw (.invalidId id)

theorem ConfigStore.writeBy_system : writeBy ReplaceCalls.system = write := rfl

section Saving

variable (calls : ReplaceCalls) {d : Disk}

namespace Settings

variable {s : Settings}

theorem outcome_saveBy (hcomplete : s.Complete) (p : Path) (d : Disk) : outcome (s.saveBy calls p) d =
    ((outcome (calls.replaceFile p "toml.tmp" s.toToml.toUTF8) d).1.mapError
      fun e => .io e.path e.cause, (outcome (calls.replaceFile p "toml.tmp" s.toToml.toUTF8) d).2) := by
  unfold saveBy
  rw [validate_eq_ok hcomplete]
  dsimp only
  rw [Disk.outcome_bind_of_ok (Disk.outcome_attempt _ _)]
  cases (outcome (calls.replaceFile p "toml.tmp" s.toToml.toUTF8) d).1 <;> rfl

/-- Saving settings is atomic, whatever fails. -/
theorem saveBy_atomic {calls : ReplaceCalls} (hcalls : calls.Faulty) (htree : Tree d)
    (hcomplete : s.Complete) (p : Path) :
    Atomic d p "toml.tmp" s.toToml.toUTF8 (outcome (s.saveBy calls p) d) := by
  rw [outcome_saveBy calls hcomplete]
  exact (hcalls.atomic htree p (by decide) (by decide) _).mapError _

/-- Settings are saved where a file can be replaced. -/
theorem outcome_save_of_accessible (hcomplete : s.Complete) {p : Path}
    (h : Accessible d p "toml.tmp") :
    ∃ d', outcome (s.save p) d = (.ok (), d') ∧ d'.Holds p s.toToml.toUTF8 := by
  obtain ⟨d', hok, -, hholds⟩ := h.outcome_replaceFile (by decide) (by decide) s.toToml.toUTF8
  refine ⟨d', ?_, hholds⟩
  rw [← saveBy_system, outcome_saveBy _ hcomplete, ReplaceCalls.replaceFile_system, hok]
  rfl

/-- Settings with an empty directory are refused, and no call is made. -/
theorem FirstEmpty.saveBy_eq {key : String} (h : s.FirstEmpty key) (p : Path) :
    s.saveBy calls p = throw (.invalid key) := by
  unfold saveBy
  rw [h.validate_eq_error]

end Settings

namespace ConfigStore

variable {id : String}

theorem outcome_writeBy (hslug : isSlug id = true) (root : Path) (entry : GameEntry) (d : Disk) :
    outcome (writeBy calls root id entry) d =
      ((outcome (calls.replaceFile (entryPath root id) "yml.tmp" entry.toYaml.toUTF8) d).1.mapError
          fun e => .io e.path e.cause,
        (outcome (calls.replaceFile (entryPath root id) "yml.tmp" entry.toYaml.toUTF8) d).2) := by
  unfold writeBy
  rw [if_pos hslug, Disk.outcome_bind_of_ok (Disk.outcome_attempt _ _)]
  cases (outcome (calls.replaceFile (entryPath root id) "yml.tmp" entry.toYaml.toUTF8) d).1 <;> rfl

/-- Saving an entry is atomic, whatever fails. -/
theorem writeBy_atomic {calls : ReplaceCalls} (hcalls : calls.Faulty) (htree : Tree d)
    (hslug : isSlug id = true) (root : Path) (entry : GameEntry) :
    Atomic d (entryPath root id) "yml.tmp" entry.toYaml.toUTF8
      (outcome (writeBy calls root id entry) d) := by
  rw [outcome_writeBy calls hslug]
  exact (hcalls.atomic htree _ (by decide) (by decide) _).mapError _

/-- An entry is saved where a file can be replaced. -/
theorem outcome_write_of_accessible (hslug : isSlug id = true) {root : Path} (entry : GameEntry)
    (h : Accessible d (entryPath root id) "yml.tmp") :
    ∃ d', outcome (write root id entry) d = (.ok (), d') ∧
      d'.Holds (entryPath root id) entry.toYaml.toUTF8 := by
  obtain ⟨d', hok, -, hholds⟩ := h.outcome_replaceFile (by decide) (by decide) entry.toYaml.toUTF8
  refine ⟨d', ?_, hholds⟩
  rw [← writeBy_system, outcome_writeBy _ hslug, ReplaceCalls.replaceFile_system, hok]
  rfl

/-- An entry of what is no slug is refused, and no call is made. -/
theorem writeBy_refused (hslug : isSlug id = false) (root : Path) (entry : GameEntry) :
    writeBy calls root id entry = throw (.invalidId id) :=
  if_neg (by simp [hslug])

end ConfigStore

end Saving

/-! ## Saving is atomic -/

/-- Settings and entries are saved as a whole or not at all, whatever calls fail.  Settings with an
    empty directory, and entries of what is no slug, are refused before any call is made. -/
theorem saved_atomically {calls : ReplaceCalls} (hcalls : calls.Faulty) {d : Disk} (htree : Tree d) :
    (∀ (s : Settings) (p : Path), s.Complete →
      Atomic d p "toml.tmp" s.toToml.toUTF8 (outcome (s.saveBy calls p) d)) ∧
    (∀ (root : Path) (id : String) (entry : GameEntry), isSlug id = true →
      Atomic d (ConfigStore.entryPath root id) "yml.tmp" entry.toYaml.toUTF8
        (outcome (ConfigStore.writeBy calls root id entry) d)) ∧
    (∀ s : Settings, ¬ s.Complete → ∃ key, s.FirstEmpty key ∧
      ∀ (calls : ReplaceCalls) (p : Path), s.saveBy calls p = throw (.invalid key)) ∧
    (∀ id : String, isSlug id = false → ∀ (calls : ReplaceCalls) (root : Path) (entry : GameEntry),
      ConfigStore.writeBy calls root id entry = throw (.invalidId id)) ∧
    (∀ (s : Settings) (p : Path), s.saveBy .system p = s.save p) ∧
    (∀ (root : Path) (id : String) (entry : GameEntry),
      ConfigStore.writeBy .system root id entry = ConfigStore.write root id entry) := by
  refine ⟨fun s p hcomplete => Settings.saveBy_atomic hcalls htree hcomplete p,
    fun root id entry hslug => ConfigStore.writeBy_atomic hcalls htree hslug root entry,
    fun s hempty => ?_,
    fun id hslug calls root entry => ConfigStore.writeBy_refused calls hslug root entry,
    fun _ _ => rfl, fun _ _ _ => rfl⟩
  obtain ⟨key, hkey⟩ := s.complete_or_firstEmpty.resolve_left hempty
  exact ⟨key, hkey, fun calls p => hkey.saveBy_eq calls p⟩

namespace Torn

/-- Calls of which writing stops after three bytes. -/
def calls : ReplaceCalls :=
  { ReplaceCalls.system with
    writeBytes := fun q content => do
      Disk.writeBytes q (content.extract 0 3)
      throw (.custom .storageFull "no storage space") }

/-- Writing fails when three bytes were written, or before. -/
theorem writeBytes_fails (q : Path) (content : ByteArray) (d : Disk) :
    ∃ e, outcome (calls.writeBytes q content) d =
      (.error e, (outcome (Disk.writeBytes q (content.extract 0 3)) d).2) := by
  rcases hout : outcome (Disk.writeBytes q (content.extract 0 3)) d with ⟨e | u, d'⟩
  · exact ⟨e, Disk.outcome_bind_of_error hout⟩
  · exact ⟨_, Disk.outcome_bind_of_ok hout⟩

theorem faulty : calls.Faulty where
  createDirAll _ _ := .inl rfl
  writeBytes q content d := by
    obtain ⟨e, hfails⟩ := writeBytes_fails q content d
    exact .inr (.inr ⟨e, 3, hfails⟩)
  rename _ _ _ := .inl rfl

theorem replaceFile_fails (p : Path) (ext : String) (content : ByteArray) (d : Disk) :
    ∃ e d', outcome (calls.replaceFile p ext content) d = (.error e, d') := by
  rcases hout : outcome (calls.replaceFile p ext content) d with ⟨e | u, d'⟩
  · exact ⟨e, d', rfl⟩
  · -- Whether or not there are directories to make, the write comes next, and fails.
    have hrest {d : Disk} : outcome (do
        Disk.naming (p.withExtension ext) (calls.writeBytes (p.withExtension ext) content)
        Disk.naming p (calls.rename (p.withExtension ext) p)) d ≠ (.ok (), d') := by
      intro hok
      obtain ⟨_, _, hwrite, -⟩ := Disk.outcome_bind_eq_ok.mp hok
      obtain ⟨e, hfails⟩ := writeBytes_fails (p.withExtension ext) content d
      rw [Disk.outcome_naming, hfails] at hwrite
      cases hwrite
    unfold ReplaceCalls.replaceFile at hout
    dsimp only at hout
    split at hout
    · obtain ⟨_, _, -, hok⟩ := Disk.outcome_bind_eq_ok.mp hout
      exact absurd hok hrest
    · exact absurd hout hrest

/-- A disk with settings and a directory for the entries of games. -/
def disk : Disk :=
  ⟨[(["games"], .dir), (["s.toml"], .file "journal = true".toUTF8 0o644 none)], [], false⟩

theorem tree : Tree disk := .of_entries (by decide) (by decide) rfl

theorem complete : (Settings.rooted ⟨"/r"⟩).Complete := by
  have hall : ∀ e ∈ (Settings.rooted ⟨"/r"⟩).directories, e.2.text ≠ "" := by decide
  exact fun key p hp => hall (key, p) hp

theorem accessible_settings : Accessible disk ⟨"/s.toml"⟩ "toml.tmp" := by
  have hbeside : (Path.mk "/s.toml").withExtension "toml.tmp" = ⟨"/s.toml.tmp"⟩ := by decide
  have hparent : Disk.HasParent disk ⟨"/s.toml"⟩ := by
    intro parent hparent
    have htop : (Path.mk "/s.toml").parent? = some ⟨"/"⟩ := by decide
    obtain rfl := Option.some.inj (hparent.symm.trans htop)
    exact .inl (by decide)
  have hS : Names disk ((Path.mk "/s.toml").withExtension "toml.tmp") ["s.toml.tmp"] := by
    rw [hbeside]
    exact Disk.resolve_root_name (by decide) (by decide) trivial
  have hT : Names disk ⟨"/s.toml"⟩ ["s.toml"] :=
    Disk.resolve_root_name (by decide) (by decide) (.inr rfl)
  exact .of_hasParent tree rfl hparent hS (.inl rfl) (Disk.alone_of_none rfl) hT
    (.inr ⟨_, _, _, rfl⟩)

theorem accessible_entry : Accessible disk (ConfigStore.entryPath ⟨"/"⟩ "baz") "yml.tmp" := by
  have hpath : ConfigStore.entryPath ⟨"/"⟩ "baz" = ⟨"/games/baz.yml"⟩ := by decide
  have hbeside : (Path.mk "/games/baz.yml").withExtension "yml.tmp" = ⟨"/games/baz.yml.tmp"⟩ := by
    decide
  rw [hpath]
  have hparent : Disk.HasParent disk ⟨"/games/baz.yml"⟩ := by
    intro parent hparent
    have hgames : (Path.mk "/games/baz.yml").parent? = some ⟨"/games"⟩ := by decide
    obtain rfl := Option.some.inj (hparent.symm.trans hgames)
    have hdir : disk.resolve .follow ⟨"/games"⟩ =
        .ok ⟨["games"], disk.find? ["games"], false, false⟩ :=
      Disk.resolve_root_name (by decide) (by decide) trivial
    exact .inr (Disk.isDir_iff.mpr ⟨["games"], _, hdir, rfl, rfl⟩)
  have hS : Names disk ((Path.mk "/games/baz.yml").withExtension "yml.tmp")
      ["games", "baz.yml.tmp"] := by
    rw [hbeside]
    exact Disk.resolve_in_root_dir (by decide) (by decide) (by decide) rfl trivial
  have hT : Names disk ⟨"/games/baz.yml"⟩ ["games", "baz.yml"] :=
    Disk.resolve_in_root_dir (by decide) (by decide) (by decide) rfl trivial
  exact .of_hasParent tree rfl hparent hS (.inl rfl) (Disk.alone_of_none rfl) hT (.inl rfl)

end Torn

/-- Settings and an entry are saved, and settings are kept when writing stops after three bytes. -/
theorem saved_atomically_torn : ∃ (s : Settings) (entry : GameEntry) (d d₁ d₂ d₃ : Disk)
    (e : SettingsError), Tree d ∧ s.Complete ∧
      outcome (s.save ⟨"/s.toml"⟩) d = (.ok (), d₁) ∧
        Swapped (d.withParents ⟨"/s.toml"⟩) d₁ ⟨"/s.toml"⟩ ⟨"/s.toml.tmp"⟩ s.toToml.toUTF8 ∧
      outcome (ConfigStore.write ⟨"/"⟩ "baz" entry) d = (.ok (), d₂) ∧
        Swapped (d.withParents ⟨"/games/baz.yml"⟩) d₂ ⟨"/games/baz.yml"⟩ ⟨"/games/baz.yml.tmp"⟩
          entry.toYaml.toUTF8 ∧
      outcome (s.saveBy Torn.calls ⟨"/s.toml"⟩) d = (.error e, d₃) ∧
        Kept d d₃ ⟨"/s.toml"⟩ ⟨"/s.toml.tmp"⟩ := by
  have hbeside : (Path.mk "/s.toml").withExtension "toml.tmp" = ⟨"/s.toml.tmp"⟩ := by decide
  have hpath : ConfigStore.entryPath ⟨"/"⟩ "baz" = ⟨"/games/baz.yml"⟩ := by decide
  have hbeside' : (Path.mk "/games/baz.yml").withExtension "yml.tmp" = ⟨"/games/baz.yml.tmp"⟩ := by
    decide
  obtain ⟨hsettings, hentries, -, -, hsystem, hsystem'⟩ :=
    saved_atomically Disk.ReplaceCalls.faulty_system Torn.tree
  obtain ⟨htorn, -⟩ := saved_atomically Torn.faulty Torn.tree
  have hsaved := hsettings (.rooted ⟨"/r"⟩) ⟨"/s.toml"⟩ Torn.complete
  have hwritten := hentries ⟨"/"⟩ "baz" ⟨⟨"/opt"⟩, "run", "Baz", "linux"⟩ (by decide)
  have hkept := htorn (.rooted ⟨"/r"⟩) ⟨"/s.toml"⟩ Torn.complete
  obtain ⟨d₁, hsave, -⟩ := Settings.outcome_save_of_accessible Torn.complete Torn.accessible_settings
  obtain ⟨d₂, hwrite, -⟩ := ConfigStore.outcome_write_of_accessible (by decide)
    ⟨⟨"/opt"⟩, "run", "Baz", "linux"⟩ Torn.accessible_entry
  obtain ⟨e, d₃, hfails⟩ := Torn.replaceFile_fails ⟨"/s.toml"⟩ "toml.tmp"
    (Settings.rooted ⟨"/r"⟩).toToml.toUTF8 Torn.disk
  have htear := Settings.outcome_saveBy Torn.calls Torn.complete ⟨"/s.toml"⟩ Torn.disk
  rw [hfails] at htear
  rw [hsystem, hsave] at hsaved
  rw [hsystem', hwrite, hpath] at hwritten
  have hreplaceable : Replaceable Torn.disk ⟨"/s.toml"⟩ "toml.tmp" :=
    Torn.accessible_settings.replaceable (by decide) (by decide) (.inr (by decide))
  have hspare := Torn.accessible_entry.spare
  rw [hpath] at hspare
  rw [htear] at hkept
  refine ⟨.rooted ⟨"/r"⟩, ⟨⟨"/opt"⟩, "run", "Baz", "linux"⟩, Torn.disk, d₁, d₂, d₃, _, Torn.tree,
    Torn.complete, hsave, ?_, hwrite, ?_, htear, ?_⟩
  · exact hbeside ▸ hsaved.done rfl Torn.accessible_settings.spare
  · exact hbeside' ▸ hwritten.done rfl hspare
  · exact hbeside ▸ hkept.failed _ rfl hreplaceable

namespace Linked

/-- A disk with the file of a game and a link to it beside it. -/
def disk (content : ByteArray) : Disk :=
  ⟨[(["games"], .dir), (["games", "baz.yml"], .file content 0o644 none),
    (["games", "baz.yml.tmp"], .link "baz.yml")], [], false⟩

/-- The disk when the link was renamed. -/
def lost : Disk := ⟨[(["games"], .dir), (["games", "baz.yml"], .link "baz.yml")], [], false⟩

theorem resolve_entry (content : ByteArray) (final : Disk.Final) :
    (disk content).resolve final ⟨"/games/baz.yml"⟩ =
      .ok ⟨["games", "baz.yml"], some (.file content 0o644 none), false, false⟩ :=
  Disk.resolve_in_root_dir (by decide) (by decide) (by decide) rfl (.inl rfl)

theorem resolve_beside (content : ByteArray) :
    (disk content).resolve .entry ⟨"/games/baz.yml.tmp"⟩ =
      .ok ⟨["games", "baz.yml.tmp"], some (.link "baz.yml"), false, false⟩ :=
  Disk.resolve_in_root_dir (by decide) (by decide) (by decide) rfl (.inl rfl)

/-- The link leads to the file. -/
theorem resolve_beside_follow (content : ByteArray) :
    (disk content).resolve .follow ⟨"/games/baz.yml.tmp"⟩ =
      .ok ⟨["games", "baz.yml"], some (.file content 0o644 none), false, false⟩ := by
  have hsegments : Disk.segments "baz.yml" = ["baz.yml"] := by decide
  have hslash : Disk.endsInSlash "baz.yml" = false := by decide
  have hstart : Disk.startsInSlash "baz.yml" = false := by decide
  rw [Disk.resolve_absolute _ _ ["games", "baz.yml.tmp"] (by decide)]
  simp (disch := decide) [Disk.walk_cons, Disk.walkAt, disk, Disk.find?, Disk.lookup, hsegments,
    hslash, hstart, Disk.maxLinks]
  rfl

/-- A link to itself is followed without end. -/
theorem walk_lost (links : Nat) (slash : Bool) :
    lost.walk .follow links ["games"] slash ["baz.yml"] = .error .loop := by
  have hlink : lost.find? (["games"] ++ ["baz.yml"]) = some (.link "baz.yml") := by decide
  have hsegments : Disk.segments "baz.yml" = ["baz.yml"] := by decide
  have hstart : Disk.startsInSlash "baz.yml" = false := by decide
  -- Each round costs one of the links that a walk may follow, until none is left.
  induction links generalizing slash with
  | zero =>
    rw [Disk.walk_cons _ _ (by decide) (by decide) (by decide), hlink]
    rfl
  | succ links ih =>
    rw [Disk.walk_cons _ _ (by decide) (by decide) (by decide), hlink]
    simpa [Disk.walkAt, hsegments, hstart] using ih _

theorem resolve_lost : lost.resolve .follow ⟨"/games/baz.yml"⟩ = .error (.system .loop) := by
  have hgames : lost.find? ([] ++ ["games"]) = some .dir := by decide
  rw [Disk.resolve_absolute _ _ ["games", "baz.yml"] (by decide),
    Disk.walk_cons _ _ (by decide) (by decide) (by decide), hgames]
  change Except.mapError _ (lost.walk .follow _ ["games"] false ["baz.yml"]) = _
  rw [walk_lost]
  rfl

/-- The entry is written over the link, which is then renamed. -/
theorem outcome_write (old : ByteArray) (entry : GameEntry) :
    outcome (ConfigStore.write ⟨"/"⟩ "baz" entry) (disk old) = (.ok (), lost) := by
  have hpath : ConfigStore.entryPath ⟨"/"⟩ "baz" = ⟨"/games/baz.yml"⟩ := by decide
  have hbeside : (Path.mk "/games/baz.yml").withExtension "yml.tmp" = ⟨"/games/baz.yml.tmp"⟩ := by
    decide
  have hparent : (Path.mk "/games/baz.yml").parent? = some ⟨"/games"⟩ := by decide
  have hdir : (disk old).resolve .follow ⟨"/games"⟩ =
      .ok ⟨["games"], some .dir, false, false⟩ :=
    Disk.resolve_root_name (by decide) (by decide) trivial
  have hmade : outcome (Disk.createDirAll ⟨"/games"⟩) (disk old) = (.ok (), disk old) :=
    Disk.outcome_createDirAll_of_isDir hdir rfl
  have hwrite : outcome (Disk.writeBytes ⟨"/games/baz.yml.tmp"⟩ entry.toYaml.toUTF8) (disk old) =
      (.ok (), disk entry.toYaml.toUTF8) :=
    Disk.outcome_update_of_file (resolve_beside_follow old) rfl _ _
  -- What is renamed is the link, and what it replaces the file that was written.
  have hapart : Disk.Apart ["games", "baz.yml.tmp"] ["games", "baz.yml"] := ⟨by decide, by decide⟩
  have hrename : outcome (Disk.rename ⟨"/games/baz.yml.tmp"⟩ ⟨"/games/baz.yml"⟩)
      (disk entry.toYaml.toUTF8) = (.ok (), lost) :=
    Disk.outcome_rename rfl (resolve_beside _) (resolve_entry _ .entry) ⟨rfl, rfl⟩ rfl
      (.inr ⟨rfl, rfl⟩) hapart (by simp [Disk.sameFile, Disk.Node.isDir])
  have hreplaced : outcome (Disk.replaceFile ⟨"/games/baz.yml"⟩ "yml.tmp" entry.toYaml.toUTF8)
      (disk old) = (.ok (), lost) := by
    unfold Disk.replaceFile
    rw [hparent, hbeside]
    dsimp only
    rw [Disk.outcome_bind, Disk.outcome_naming, hmade]
    dsimp only [Except.mapError]
    rw [Disk.outcome_bind, Disk.outcome_naming, hwrite]
    dsimp only [Except.mapError]
    rw [Disk.outcome_naming, hrename]
    rfl
  rw [← ConfigStore.writeBy_system, ConfigStore.outcome_writeBy _ (by decide), hpath,
    ReplaceCalls.replaceFile_system, hreplaced]
  rfl

end Linked

/-- Where a link to the file of a game is beside it, saving an entry succeeds, and the file is lost: a
    link to itself is left in its place. -/
theorem exists_entry_lost : ∃ (d d' : Disk) (root : Path) (id : String) (entry : GameEntry)
    (old : ByteArray), Tree d ∧ isSlug id = true ∧ d.Holds (ConfigStore.entryPath root id) old ∧
      outcome (ConfigStore.write root id entry) d = (.ok (), d') ∧
        ∀ content, ¬ d'.Holds (ConfigStore.entryPath root id) content := by
  have hpath : ConfigStore.entryPath ⟨"/"⟩ "baz" = ⟨"/games/baz.yml"⟩ := by decide
  refine ⟨Linked.disk "main: {}".toUTF8, Linked.lost, ⟨"/"⟩, "baz", ⟨⟨"/opt"⟩, "run", "Baz", "linux"⟩,
    "main: {}".toUTF8, .of_entries (by decide) (by decide) rfl, by decide, ?_,
    Linked.outcome_write _ _, ?_⟩
  · rw [hpath]
    exact ⟨_, _, _, Linked.resolve_entry _ .follow, rfl⟩
  · rintro content ⟨r, m, shared, hr, -⟩
    rw [hpath, Linked.resolve_lost] at hr
    cases hr

end GameInstaller
