import GameInstaller.Proofs.Config.Files
import GameInstaller.Proofs.Disk.Beneath

/-!
# The store as a map

In a directory of its own the store holds a map from identifiers to entries.  Saving an entry goes
by way of a file beside that of the game, of which nothing is left when it is done, and touches no
file of another game.

* `Shelf`      the tree of a store that holds these entries
* `Holds`      a disk on which the store holds these entries
* `lastSaved`  the entry that was saved last under an identifier
* `Refines`    the store does what a map does

## Key results

- `load_of_holds`: what is loaded
- `write_step`: what saving an entry does to what the store holds
- `store_refines_map`: entries saved one after the other make a map
-/

namespace GameInstaller.ConfigStore

open Disk (outcome series DirAt Fits Bare Beneath)

variable {root : Path} {l : Location} {d₀ d : Disk} {tree : Location → Option Disk.Node}
  {saved : String → Option GameEntry} {id : String} {entry : GameEntry}

/-! ## What a store holds -/

/-- The file of an entry. -/
def fileOf (entry : GameEntry) : Disk.Node := .file entry.toYaml.toUTF8 Disk.newFileMode none

/-- The tree of a store that holds these entries: a directory with a file for each of them, and
    nothing else. -/
structure Shelf (root : Path) (tree : Location → Option Disk.Node)
    (saved : String → Option GameEntry) : Prop where
  games : (tree ["games"] = some .dir ∧ Fits root "games") ∨
    tree ["games"] = none ∧ ∀ id, saved id = none
  files : ∀ id, tree ["games", id ++ ".yml"] = (saved id).map fileOf
  others : ∀ k ≠ [], k ≠ ["games"] → (∀ id, k ≠ ["games", id ++ ".yml"]) → tree k = none
  slugs : ∀ id entry, saved id = some entry → isSlug id = true ∧ Fits (gamesPath root) (id ++ ".yml")

/-- The store in the directory at `l` holds these entries; beside it the disk is as it was. -/
def Holds (root : Path) (l : Location) (d₀ d : Disk) (saved : String → Option GameEntry) : Prop :=
  ∃ tree, Beneath d₀ d l tree ∧ Shelf root tree saved

theorem Holds.start (hbare : Bare d₀ l) : Holds root l d₀ d₀ fun _ => none :=
  ⟨_, hbare, .inr ⟨rfl, fun _ => rfl⟩, fun _ => rfl, fun _ _ _ _ => rfl, nofun⟩

namespace Shelf

/-- A shelf with a directory, be there something in it or not. -/
theorem withGames (h : Shelf root tree saved) (hfits : Fits root "games") :
    Shelf root (Function.update tree ["games"] (some .dir)) saved where
  games := .inl ⟨by simp, hfits⟩
  files id := by
    rw [Function.update_of_ne (by simp), h.files]
  others k hk hgames hfile := by
    rw [Function.update_of_ne hgames, h.others k hk hgames hfile]
  slugs := h.slugs

/-- There is one more file, or another one for the game. -/
theorem withFile (h : Shelf root tree saved) (hgames : tree ["games"] = some .dir)
    (hslug : isSlug id = true) (hfits : Fits (gamesPath root) (id ++ ".yml"))
    (hfits' : Fits root "games") :
    Shelf root (Function.update tree ["games", id ++ ".yml"] (some (fileOf entry)))
      (Function.update saved id (some entry)) where
  games := .inl ⟨by rw [Function.update_of_ne (by simp), hgames], hfits'⟩
  files other := by
    by_cases hother : other = id
    · simp [hother]
    · have hne : other ++ ".yml" ≠ id ++ ".yml" := fun heq => hother (append_ending_injective heq)
      rw [Function.update_of_ne (by simpa using hne), Function.update_of_ne hother, h.files]
  others k hk hgames' hfile := by
    rw [Function.update_of_ne (hfile id), h.others k hk hgames' hfile]
  slugs other e hsaved := by
    by_cases hother : other = id
    · subst hother
      exact ⟨hslug, hfits⟩
    · rw [Function.update_of_ne hother] at hsaved
      exact h.slugs other e hsaved

/-- No file is beside that of a game. -/
theorem temp (h : Shelf root tree saved) (id : String) : tree ["games", id ++ ".yml.tmp"] = none :=
  h.others _ (by simp) (by simp) fun other heq =>
    name_ne_temp other id (List.singleton_inj.mp (List.cons.inj heq).2).symm

end Shelf

/-! ## Loading -/

/-- What is loaded for a game: the entry that its file is read as, if it has one. -/
def loaded (root : Path) (id : String) (saved : Option GameEntry) :
    Except StoreError (Option GameEntry) :=
  saved.elim (.ok none) fun entry =>
    (GameEntry.ofYaml? entry.toYaml).elim (.error (.format (entryPath root id))) fun entry' =>
      .ok (some entry')

/-- Loading reads the file of the game, and changes nothing. -/
theorem load_of_holds (h : Holds root l d₀ d saved) (hroot : DirAt d₀ root l) (hbare : Bare d₀ l)
    (hslug : isSlug id = true) :
    outcome (load root id) d = (loaded root id (saved id), d) := by
  obtain ⟨tree, hdisk, hshelf⟩ := h
  have hdir := hdisk.dirAt hbare hroot
  have hyml := Path.isProper_append hslug ".yml" (by decide)
  have hgone (hno : d.pathExists (entryPath root id) = false) :
      outcome (loading (entryPath root id)) d = (.ok none, d) := by
    rw [loading, Disk.outcome_bind_of_ok (Disk.outcome_get d), hno]
    rfl
  rw [load_eq hslug]
  rcases hshelf.games with ⟨hgames, hfits⟩ | ⟨hgames, hnone⟩
  · have hgames' : DirAt d (gamesPath root) (l ++ ["games"]) :=
      hdir.child isProper_games hfits (by rw [hdisk.inside _ (by simp), hgames])
    have hfile : d.find? (l ++ ["games"] ++ [id ++ ".yml"]) = (saved id).map fileOf := by
      rw [List.append_assoc, hdisk.inside _ (by simp)]
      exact hshelf.files id
    cases hsaved : saved id with
    | none =>
      rw [hsaved] at hfile
      exact hgone (hgames'.not_pathExists hyml hfile)
    | some entry =>
      rw [hsaved] at hfile
      have hr : d.resolve .follow (entryPath root id) = _ :=
        hgames'.resolve_child hyml (hshelf.slugs id entry hsaved).2 (fun target htarget => by
          rw [hfile] at htarget
          cases htarget) .follow
      rw [hfile] at hr
      have hthere : d.pathExists (entryPath root id) = true := by
        simp [Disk.pathExists, Disk.stat, hr]
      rw [loading, Disk.outcome_bind_of_ok (Disk.outcome_get d), hthere,
        if_neg (by simp), Disk.outcome_bind_of_ok (Disk.outcome_attempt _ _),
        Disk.outcome_readText_of_file hr rfl]
      dsimp only
      rw [loaded, Option.elim_some]
      cases GameEntry.ofYaml? entry.toYaml <;> rfl
  · rw [hnone id]
    refine hgone (hdir.not_pathExists_of_none isProper_games ?_ hyml.toIsName)
    rw [hdisk.inside _ (by simp), hgames]

/-! ## Saving -/

/-- The directory of the files is made, or is there. -/
theorem makeGames_step (h : Holds root l d₀ d saved) (hroot : DirAt d₀ root l) (hbare : Bare d₀ l)
    (hfits : Fits root "games") :
    ∃ d' tree, outcome (concerning (gamesPath root) (Disk.createDirAll (gamesPath root))) d =
        (.ok (), d') ∧ Beneath d₀ d' l tree ∧ Shelf root tree saved ∧ tree ["games"] = some .dir := by
  obtain ⟨tree, hdisk, hshelf⟩ := h
  have hdir := hdisk.dirAt hbare hroot
  rw [outcome_concerning]
  rcases id hshelf.games with ⟨hgames, -⟩ | ⟨hgames, -⟩
  · obtain ⟨r, hr, -, hn⟩ := hdir.child isProper_games hfits
      (by rw [hdisk.inside _ (by simp), hgames])
    refine ⟨d, tree, ?_, hdisk, hshelf, hgames⟩
    rw [gamesPath, Disk.outcome_createDirAll_of_isDir hr hn]
    rfl
  · refine ⟨_, _, ?_, hdisk.set (by simp) .dir, hshelf.withGames hfits, by simp⟩
    rw [gamesPath, Disk.outcome_createDirAll_of_none hdir isProper_games hfits
      (by rw [hdisk.inside _ (by simp), hgames])]
    rfl

/-- In its directory a file is made beside that of the game, and takes its place. -/
theorem replace_step (hdisk : Beneath d₀ d l tree) (hshelf : Shelf root tree saved)
    (hgames : tree ["games"] = some .dir) (hroot : DirAt d₀ root l) (hbare : Bare d₀ l)
    (hsplit : d₀.split = false) (hslug : isSlug id = true) (hfits₀ : Fits root "games")
    (hfits : Fits (gamesPath root) (id ++ ".yml.tmp")) (entry : GameEntry) :
    ∃ d₁ d₂, outcome (Disk.writeBytes (tempPath root id) entry.toYaml.toUTF8) d = (.ok (), d₁) ∧
      outcome (Disk.rename (tempPath root id) (entryPath root id)) d₁ = (.ok (), d₂) ∧
      Holds root l d₀ d₂ (Function.update saved id (some entry)) := by
  have hyml := Path.isProper_append hslug ".yml" (by decide)
  have htmp := Path.isProper_append hslug ".yml.tmp" (by decide)
  have hfits' : Fits (gamesPath root) (id ++ ".yml") := by
    have happend : id ++ ".yml.tmp" = id ++ ".yml" ++ ".tmp" := by rw [String.append_assoc]; rfl
    rw [happend] at hfits htmp
    exact hfits.of_append hyml.toIsName htmp.toIsName
  have hgamesAt {d : Disk} {tree : Location → Option Disk.Node} (hdisk : Beneath d₀ d l tree)
      (hgames : tree ["games"] = some .dir) : DirAt d (gamesPath root) (l ++ ["games"]) :=
    (hdisk.dirAt hbare hroot).child isProper_games hfits₀ (by rw [hdisk.inside _ (by simp), hgames])
  have hat (file : String) : l ++ ["games"] ++ [file] = l ++ ["games", file] := by simp
  have hfind {d : Disk} {tree : Location → Option Disk.Node} (hdisk : Beneath d₀ d l tree)
      (file : String) : d.find? (l ++ ["games"] ++ [file]) = tree ["games", file] := by
    rw [hat, hdisk.inside _ (by simp)]
  rw [tempPath_eq hslug]
  -- First the file beside that of the game, where nothing is.
  have hfree : d.find? (l ++ ["games"] ++ [id ++ ".yml.tmp"]) = none := by
    rw [hfind hdisk, hshelf.temp]
  have hresolve := (hgamesAt hdisk hgames).resolve_child htmp hfits (fun target htarget => by
    rw [hfree] at htarget
    cases htarget) .follow
  have hwritten : outcome (Disk.writeBytes ((gamesPath root).child (id ++ ".yml.tmp"))
      entry.toYaml.toUTF8) d = (.ok (), d.set (l ++ ["games", id ++ ".yml.tmp"]) (fileOf entry)) := by
    rw [Disk.writeBytes, Disk.outcome_update_of_none hresolve hfree rfl, ← hat]
    rfl
  have hdisk₁ := hdisk.set (k := ["games", id ++ ".yml.tmp"]) (by simp) (fileOf entry)
  have hne : id ++ ".yml.tmp" ≠ id ++ ".yml" := (name_ne_temp id id).symm
  have hother {k : Location} (hk : k ≠ ["games", id ++ ".yml.tmp"]) :
      Function.update tree ["games", id ++ ".yml.tmp"] (some (fileOf entry)) k = tree k :=
    Function.update_of_ne hk _ _
  -- Then it takes the place of the file of the game, if that is there.
  have hrenamed := Disk.outcome_rename_beside
    (hgamesAt hdisk₁ (by rw [hother (by simp), hgames])) (hdisk₁.split.trans hsplit) htmp hyml hfits
    hfits' hne ((hfind hdisk₁ _).trans (Function.update_self _ _ _)) (fun n hn => by
      rw [hfind hdisk₁, hother (by simp), hshelf.files] at hn
      obtain ⟨entry', -, rfl⟩ := Option.map_eq_some_iff.mp hn
      exact ⟨_, _, rfl⟩)
  rw [hat, hat] at hrenamed
  refine ⟨_, _, hwritten, hrenamed, _, (hdisk₁.erase (by simp)).relocate (by simp) (by simp)
    (fun k hpre hk => ?_) (Function.update_self _ _ _), ?_⟩
  · obtain ⟨rest, rfl⟩ := List.isPrefixOf_iff_prefix.mp hpre
    have hrest : rest ≠ [] := by
      rintro rfl
      exact hk (List.append_nil _)
    rw [Function.update_of_ne (by simp [hrest]), hother hk]
    exact hshelf.others _ (by simp) (by simp) (by simp [hrest])
  · have hshelf' : Shelf root (Function.update tree _ (some (fileOf entry))) _ :=
      hshelf.withFile hgames hslug hfits' hfits₀
    convert hshelf' using 1
    funext k
    -- The file beside that of the game is gone, as it was before.
    by_cases hyml' : k = ["games", id ++ ".yml"]
    · simp [hyml', hne]
    · rw [Function.update_of_ne hyml', Function.update_of_ne hyml']
      by_cases htmp' : k = ["games", id ++ ".yml.tmp"]
      · rw [htmp', Function.update_self, hshelf.temp]
      · rw [Function.update_of_ne htmp', Function.update_of_ne hyml', hother htmp']

/-- Saving an entry puts it into the map when its name fits, and fails otherwise; then the map is as
    it was. -/
theorem write_step (h : Holds root l d₀ d saved) (hroot : DirAt d₀ root l) (hbare : Bare d₀ l)
    (hsplit : d₀.split = false) (hslug : isSlug id = true) (entry : GameEntry) :
    (Fits (gamesPath root) (id ++ ".yml.tmp") ∧ ∃ d', outcome (write root id entry) d = (.ok (), d') ∧
      Holds root l d₀ d' (Function.update saved id (some entry))) ∨
    ¬ Fits (gamesPath root) (id ++ ".yml.tmp") ∧
      ∃ p e d', outcome (write root id entry) d = (.error (.io p e), d') ∧
        Holds root l d₀ d' saved := by
  have htmp := Path.isProper_append hslug ".yml.tmp" (by decide)
  rw [write_eq hslug, saving]
  by_cases hfits₀ : Fits root "games"
  case neg =>
    obtain ⟨tree, hdisk, hshelf⟩ := h
    obtain ⟨e, he⟩ := Disk.outcome_createDirAll_of_unfit (hdisk.dirAt hbare hroot) isProper_games hfits₀
    refine .inr ⟨fun hfits => hfits₀ (hfits.of_child htmp.toIsName (by decide)), ?_⟩
    refine ⟨gamesPath root, e, d, Disk.outcome_bind_of_error ?_, tree, hdisk, hshelf⟩
    rw [outcome_concerning, gamesPath, he]
    rfl
  obtain ⟨d₁, tree, hmade, hdisk, hshelf, hgames⟩ := makeGames_step h hroot hbare hfits₀
  rw [Disk.outcome_bind_of_ok hmade]
  by_cases hfits : Fits (gamesPath root) (id ++ ".yml.tmp")
  · obtain ⟨d₂, d₃, hwritten, hrenamed, hholds⟩ :=
      replace_step hdisk hshelf hgames hroot hbare hsplit hslug hfits₀ hfits entry
    refine .inl ⟨hfits, d₃, ?_, hholds⟩
    rw [Disk.outcome_bind, outcome_concerning, hwritten]
    dsimp only [Except.mapError]
    rw [outcome_concerning, hrenamed]
    rfl
  · have hgamesAt : DirAt d₁ (gamesPath root) (l ++ ["games"]) :=
      (hdisk.dirAt hbare hroot).child isProper_games hfits₀ (by rw [hdisk.inside _ (by simp), hgames])
    obtain ⟨e, -, -, he⟩ := hgamesAt.resolve_unfit htmp hfits
    refine .inr ⟨hfits, tempPath root id, e, d₁, Disk.outcome_bind_of_error ?_, tree, hdisk, hshelf⟩
    rw [outcome_concerning, tempPath_eq hslug, Disk.writeBytes,
      Disk.outcome_update_of_error (he .follow)]
    rfl

/-- Saving under one name leaves what is loaded for the others. -/
theorem load_of_write (h : Holds root l d₀ d saved) (hroot : DirAt d₀ root l) (hbare : Bare d₀ l)
    (hsplit : d₀.split = false) (entry : GameEntry) {other : String} (hne : other ≠ id) :
    (outcome (load root other) (outcome (write root id entry) d).2).1 =
      (outcome (load root other) d).1 := by
  cases hslug : isSlug id with
  | false => rw [write_refused hslug]
  | true =>
    cases hslug' : isSlug other with
    | false => rw [load_refused hslug', load_refused hslug']
    | true =>
      have hsame {d' : Disk} {saved' : String → Option GameEntry} (h' : Holds root l d₀ d' saved')
          (heq : saved' other = saved other) :
          (outcome (load root other) d').1 = (outcome (load root other) d).1 := by
        rw [load_of_holds h' hroot hbare hslug', load_of_holds h hroot hbare hslug', heq]
      rcases write_step h hroot hbare hsplit hslug entry with
        ⟨-, d', hd', hholds⟩ | ⟨-, p, e, d', hd', hholds⟩
      · rw [hd']
        exact hsame hholds (Function.update_of_ne hne _ _)
      · rw [hd']
        exact hsame hholds rfl

/-! ## One after the other -/

/-- An entry that was to be saved under an identifier, and what came of it. -/
abbrev Saving := (String × GameEntry) × Except StoreError Unit

/-- The entry of the last saving under an identifier that succeeded. -/
def lastSaved (history : List Saving) (id : String) : Option GameEntry :=
  (history.reverse.find? fun ((id', _), result) => id' == id && result.isOk).map fun s => s.1.2

theorem lastSaved_concat (history : List Saving) (id : String) (entry : GameEntry)
    (result : Except StoreError Unit) :
    lastSaved (history ++ [((id, entry), result)]) =
      if result.isOk then Function.update (lastSaved history) id (some entry)
      else lastSaved history := by
  funext other
  unfold lastSaved
  rw [List.reverse_append, List.reverse_singleton, List.singleton_append, List.find?_cons]
  dsimp only
  cases hok : result.isOk with
  | false => simp
  | true =>
    by_cases hother : other = id
    · simp [hother]
    · have hbeq : (id == other) = false := by simpa using Ne.symm hother
      simp [hbeq, hother]

theorem mem_of_lastSaved {history : List Saving} (h : lastSaved history id = some entry) :
    (id, entry) ∈ history.map Prod.fst := by
  obtain ⟨s, hs, rfl⟩ := Option.map_eq_some_iff.mp h
  have hid : s.1.1 = id := by
    have := List.find?_some hs
    simp_all
  rw [← hid]
  exact List.mem_map_of_mem (List.mem_reverse.mp (List.mem_of_find?_eq_some hs))

/-- What comes of a saving: what is no slug is refused, and for a slug it succeeds just if the names
    of the files fit. -/
structure Expected (root : Path) (s : Saving) : Prop where
  refused : isSlug s.1.1 = false → s.2 = .error (.invalidId s.1.1)
  accepted : isSlug s.1.1 = true → ((s.2 = .ok () ↔ Fits (gamesPath root) (s.1.1 ++ ".yml.tmp")) ∧
    ∀ id, s.2 ≠ .error (.invalidId id))

/-- After these savings the store is a map with the entry that was saved last under each identifier.
    Names that are no slugs are refused and change nothing, what is saved under one identifier does
    not show under another, and no other file is there. -/
structure Refines (root : Path) (l : Location) (d₀ : Disk) (history : List Saving) (d : Disk) :
    Prop where
  results : ∀ s ∈ history, Expected root s
  loads : ∀ id, isSlug id = true → outcome (load root id) d = (.ok (lastSaved history id), d)
  loadRefused : ∀ id, isSlug id = false → outcome (load root id) d = (.error (.invalidId id), d)
  writeRefused : ∀ id entry, isSlug id = false →
    outcome (write root id entry) d = (.error (.invalidId id), d)
  frame : ∀ id entry other, other ≠ id →
    (outcome (load root other) (outcome (write root id entry) d).2).1 =
      (outcome (load root other) d).1
  only : ∀ k ≠ [], d.find? (l ++ k) ≠ none →
    k = ["games"] ∨ ∃ id, lastSaved history id ≠ none ∧ k = ["games", id ++ ".yml"]
  noTemp : ∀ id, isSlug id = true → d.pathExists (tempPath root id) = false
  beside : ∀ k, (∀ k' ≠ [], k ≠ l ++ k') → d.find? k = d₀.find? k

/-- No file is beside that of a game. -/
theorem Holds.noTemp (h : Holds root l d₀ d saved) (hroot : DirAt d₀ root l) (hbare : Bare d₀ l)
    (hslug : isSlug id = true) : d.pathExists (tempPath root id) = false := by
  obtain ⟨tree, hdisk, hshelf⟩ := h
  have hdir := hdisk.dirAt hbare hroot
  have htmp := Path.isProper_append hslug ".yml.tmp" (by decide)
  rw [tempPath_eq hslug]
  rcases hshelf.games with ⟨hgames, hfits⟩ | ⟨hgames, -⟩
  · have hgamesAt := hdir.child isProper_games hfits (by rw [hdisk.inside _ (by simp), hgames])
    refine hgamesAt.not_pathExists htmp ?_
    rw [List.append_assoc, hdisk.inside _ (by simp)]
    exact hshelf.temp id
  · refine hdir.not_pathExists_of_none isProper_games ?_ htmp.toIsName
    rw [hdisk.inside _ (by simp), hgames]

/-- Only the files of entries are there. -/
theorem Holds.only (h : Holds root l d₀ d saved) {k : Location} (hk : k ≠ [])
    (hfind : d.find? (l ++ k) ≠ none) :
    k = ["games"] ∨ ∃ id, saved id ≠ none ∧ k = ["games", id ++ ".yml"] := by
  obtain ⟨tree, hdisk, hshelf⟩ := h
  rw [hdisk.inside k hk] at hfind
  by_contra hno
  rw [not_or, not_exists] at hno
  obtain ⟨hgames, hfile⟩ := hno
  refine hfind (hshelf.others k hk hgames fun id hid => hfile id ⟨?_, hid⟩)
  intro hnone
  rw [hid, hshelf.files, hnone] at hfind
  exact hfind rfl

/-- What the store holds, and what came of each saving, after savings one after the other. -/
theorem holds_series (hroot : DirAt d₀ root l) (hbare : Bare d₀ l) (hsplit : d₀.split = false)
    (entries : List (String × GameEntry)) :
    let made := series (fun e => write root e.1 e.2) entries d₀
    Holds root l d₀ made.2 (lastSaved made.1) ∧ ∀ s ∈ made.1, Expected root s := by
  refine Disk.series_induction
    (P := fun history d => Holds root l d₀ d (lastSaved history) ∧ ∀ s ∈ history, Expected root s)
    ⟨Holds.start hbare, fun s hs => absurd hs List.not_mem_nil⟩
    fun history d (id, entry) _ ⟨hholds, hresults⟩ => ?_
  have hlast {result : Except StoreError Unit} (h : Expected root ((id, entry), result)) :
      ∀ s ∈ history ++ [((id, entry), result)], Expected root s := by
    intro s hs
    rcases List.mem_append.mp hs with hs | hs
    · exact hresults s hs
    · obtain rfl := List.mem_singleton.mp hs
      exact h
  dsimp only
  rw [lastSaved_concat]
  cases hslug : isSlug id with
  | false =>
    rw [write_refused hslug]
    exact ⟨hholds, hlast ⟨fun _ => rfl, by simp [hslug]⟩⟩
  | true =>
    rcases write_step hholds hroot hbare hsplit hslug entry with
      ⟨hfits, d', hd', hholds'⟩ | ⟨hunfit, p, e, d', hd', hholds'⟩
    · rw [hd']
      exact ⟨hholds', hlast ⟨by simp [hslug], fun _ => ⟨iff_of_true rfl hfits, nofun⟩⟩⟩
    · rw [hd']
      exact ⟨hholds', hlast ⟨by simp [hslug], fun _ => ⟨iff_of_false nofun hunfit, nofun⟩⟩⟩

/-- In a directory of its own the store is a map: whatever is saved, the entry that was saved last
    under an identifier is the one that is loaded for it. -/
theorem store_refines_map {d₀ : Disk} {root : Path} {l : Location} (hroot : DirAt d₀ root l)
    (hempty : ∀ k ≠ [], d₀.find? (l ++ k) = none) (hsplit : d₀.split = false)
    (entries : List (String × GameEntry))
    (hreads : ∀ e ∈ entries, isSlug e.1 = true → GameEntry.ofYaml? e.2.toYaml = some e.2) :
    let made := series (fun e => write root e.1 e.2) entries d₀
    made.1.map Prod.fst = entries ∧ Refines root l d₀ made.1 made.2 := by
  intro made
  have hbare := Disk.bare_of_find? hempty
  have hmade : made.1.map Prod.fst = entries := Disk.series_map_fst _ _ _
  obtain ⟨hholds, hresults⟩ := holds_series hroot hbare hsplit entries
  exact ⟨hmade, {
    results := hresults
    loads := fun id hslug => by
      rw [load_of_holds hholds hroot hbare hslug]
      cases hsaved : lastSaved made.1 id with
      | none => rfl
      | some entry =>
        have hmem := mem_of_lastSaved hsaved
        rw [hmade] at hmem
        rw [loaded, Option.elim_some, hreads _ hmem hslug, Option.elim_some]
    loadRefused := fun id hslug => load_refused hslug root _
    writeRefused := fun id entry hslug => write_refused hslug root entry _
    frame := fun id entry other hne => load_of_write hholds hroot hbare hsplit entry hne
    only := fun k => hholds.only
    noTemp := fun id => hholds.noTemp hroot hbare
    beside := by
      obtain ⟨tree, hdisk, -⟩ := hholds
      exact hdisk.outside }⟩

/-- Entries under names of which one goes on after another, one that is saved twice, and a name that
    is no slug. -/
theorem store_refines_map_endings :
    let d₀ : Disk := ⟨[(["c"], .dir)], [], false⟩
    let entry (name : String) : GameEntry := ⟨⟨"/g"⟩, "run", name, "linux"⟩
    let entries := [("a", entry "A"), ("a.yml", entry "B"), ("../a", entry "A"), ("a", entry "B")]
    let made := series (fun e => write ⟨"/c"⟩ e.1 e.2) entries d₀
    (∀ e ∈ entries, isSlug e.1 = true → GameEntry.ofYaml? e.2.toYaml = some e.2) ∧
      made.1.map Prod.fst = entries ∧ Refines ⟨"/c"⟩ ["c"] d₀ made.1 made.2 := by
  intro d₀ entry entries made
  have hroot : DirAt d₀ ⟨"/c"⟩ ["c"] :=
    Disk.dirAt_root ⟨⟨by decide, by decide⟩, by decide⟩ (by decide) (by decide) rfl
  have hempty : ∀ k ≠ [], d₀.find? (["c"] ++ k) = none := by
    intro k hk
    simp [d₀, Disk.find?, Disk.lookup, Ne.symm hk]
  have hreads : ∀ e ∈ entries, isSlug e.1 = true → GameEntry.ofYaml? e.2.toYaml = some e.2 := by
    have hfirst : GameEntry.ofYaml? (entry "A").toYaml = some (entry "A") := by decide +kernel
    have hsecond : GameEntry.ofYaml? (entry "B").toYaml = some (entry "B") := by decide +kernel
    simp [entries, hfirst, hsecond]
  exact ⟨hreads, store_refines_map hroot hempty rfl entries hreads⟩

end GameInstaller.ConfigStore
