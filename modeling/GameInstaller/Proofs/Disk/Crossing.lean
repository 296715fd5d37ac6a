import GameInstaller.Proofs.Disk.Grafting
import GameInstaller.Proofs.Disk.Moving
import GameInstaller.Proofs.Disk.Removing

/-!
# Moves across devices

Across devices a move copies and then takes the source away.  This leaves the tree that a renaming
leaves exactly if nothing is at the target, no link is in the source, all names fit, and the path of a
source that is a directory does not lead through what is in it.

* `SameTree`   the same entries, up to which files have second names
* `Carries`    copying and removing does what a renaming does
* `Carriable`  what it takes for that

## Key results

- `Renamed.carries`: copying and removing does what a renaming does
- `Renamed.links_of_carries`, `Renamed.free_of_carries`: it does not where links are in the way
- `rename_carries_iff`: when it does
- `movePath_across`: what this means for a move
- `exists_link_not_carried`: a directory with a link that leads nowhere is not moved across devices
-/

namespace GameInstaller.Disk

variable {d d' d'' d₁ : Disk} {src dst target : Path} {l S T : Location}

/-- The same entries are on both disks, up to which files have second names. -/
def SameTree (d d' : Disk) : Prop := ∀ l, (d.find? l).map Node.alone = (d'.find? l).map Node.alone

theorem SameTree.isSome (h : SameTree d d') (hl : (d'.find? l).isSome) : (d.find? l).isSome := by
  rwa [← Option.isSome_map (f := Node.alone), h l, Option.isSome_map]

theorem SameTree.link (h : SameTree d d') {text : String} (hl : d.find? l = some (.link text)) :
    d'.find? l = some (.link text) := by
  have hsame := h l
  rw [hl] at hsame
  obtain ⟨n, hn, halone⟩ := Option.map_eq_some_iff.mp hsame.symm
  cases n with
  | link text' => exact hn.trans (congrArg some halone)
  | dir | file _ _ _ => cases halone

/-- The disk as one device. -/
def joined (d : Disk) : Disk := { d with split := false }

/-- Paths lead to the same places, on however many devices these are. -/
theorem resolve_joined (d : Disk) (final : Final) (p : Path) :
    d.joined.resolve final p = d.resolve final p := by
  have hfind (l : Location) : d.joined.find? l = d.find? l := rfl
  have hworking : d.joined.working = d.working := rfl
  exact resolve_congr hfind hworking final p

/-- What a renaming does on one device, it would do on several. -/
theorem Renamed.of_joined (h : Renamed d.joined d' src target S T) :
    Renamed d { d' with split := d.split } src target S T where
  source := by simpa only [EntryAt, resolve_joined] using h.source
  target := by simpa only [EntryAt, resolve_joined] using h.target
  there := h.there
  unslashed hS := by simpa only [resolve_joined] using h.unslashed hS
  file c m shared hT := by
    obtain ⟨r, c', m', shared', hr, hl, hn⟩ := h.file c m shared hT
    exact ⟨r, c', m', shared', resolve_joined d _ _ ▸ hr, hl, hn⟩
  result := h.result.imp (And.imp_right fun hd => by rw [hd]; rfl)
    (And.imp_right <| And.imp_right <| And.imp_right fun hd => by rw [hd]; rfl)

/-- Copying and then removing succeeds, and leaves the tree of a disk. -/
def Carries (d d' : Disk) (src target : Path) : Prop :=
  ∃ d'', outcome (do copyRecursive src target; removePath src) d = (.ok (), d'') ∧ SameTree d' d''

/-- What it takes to move something across devices, from the place `S` to the place `T`. -/
structure Carriable (d : Disk) (src target : Path) (S T : Location) : Prop where
  free : d.find? T = none
  links : ∀ j text, d.find? (S ++ j) ≠ some (.link text)
  fits : FitsUnder d src target S
  /-- The path of a directory does not lead through what is in it. -/
  way : d.find? S = some .dir → EntryAt (d.eraseUnder S) src S

namespace Renamed

variable (h : Renamed d d' src target S T) (htree : Tree d)

include h

/-- A place where nothing is is no name of what is renamed. -/
theorem not_oneFile (hfree : d.find? T = none) : ¬ OneFile d S T := by
  have hthere := h.there
  rintro (rfl | ⟨_, _, _, _, _, -, hT⟩)
  · rw [hfree] at hthere
    cases hthere
  · rw [hfree] at hT
    cases hT

theorem apart (hfree : d.find? T = none) : Apart S T :=
  (h.result.resolve_left fun hone => h.not_oneFile hfree hone.1).2.1

/-- The source leads to what is renamed, if that is no link. -/
theorem reaches_source (hlink : ∀ text, d.find? S ≠ some (.link text)) :
    ∃ slash, Reaches d src S slash ∧ (d.find? S = some .dir ∨ slash = false) := by
  by_cases hdir : d.find? S = some .dir
  · obtain ⟨slash, hreaches⟩ := h.source.reaches_dir hdir
    exact ⟨slash, hreaches, .inl hdir⟩
  · obtain ⟨⟨n, hsource⟩, -⟩ := h.unslashed hdir
    have hends : Ends .follow false (d.find? S) := by
      match hn : d.find? S with
      | none | some .dir => trivial
      | some (.file ..) => exact .inl rfl
      | some (.link text) => exact absurd hn (hlink text)
    exact ⟨false, reaches_of_entry hsource hends, .inr rfl⟩

/-- The target leads to a free place. -/
theorem reaches_target (hfree : d.find? T = none) :
    ∃ slash, Reaches d target T slash ∧ (d.find? S = some .dir ∨ slash = false) := by
  have hends (slash : Bool) : Ends .follow slash (d.find? T) := by rw [hfree]; trivial
  by_cases hdir : d.find? S = some .dir
  · obtain ⟨slash, hreaches⟩ := h.target.reaches hends
    exact ⟨slash, hreaches, .inl hdir⟩
  · obtain ⟨-, n, htarget⟩ := h.unslashed hdir
    exact ⟨false, reaches_of_entry htarget (hends false), .inr rfl⟩

include htree

theorem relocated (hfree : d.find? T = none) : Relocated d d' S T :=
  ((h.cases htree).resolve_left fun hone => h.not_oneFile hfree hone.1).2.2

/-- What is renamed to a free place can be copied there, if there are no links in it. -/
theorem ready (hfree : d.find? T = none) (hlinks : ∀ j text, d.find? (S ++ j) ≠ some (.link text)) :
    Ready d src target S T := by
  obtain ⟨slash, hsource, -⟩ := h.reaches_source fun text => by simpa using hlinks [] text
  exact {
    tree := htree
    source := ⟨slash, hsource⟩
    target := h.reaches_target hfree
    there := h.there
    free := hfree
    apart := h.apart hfree
    links := hlinks }

/-- What was copied and then removed is what was renamed. -/
theorem sameTree {e : Disk} (hfree : d.find? T = none) (hgrafted : Grafted d e S T)
    (hcleared : Cleared e d'' S) : SameTree d' d'' := by
  have hmoved := h.relocated htree hfree
  intro l
  rw [hcleared l]
  by_cases hS : S <+: l
  · obtain ⟨j, rfl⟩ := hS
    rw [if_pos (List.prefix_append S j), hmoved.gone]
  rw [if_neg hS]
  by_cases hT : T <+: l
  · obtain ⟨j, rfl⟩ := hT
    rw [hgrafted.copied, hmoved.arrived, Option.map_map]
    simp [Function.comp_def]
  · rw [hgrafted.kept l hT, hmoved.others l hS hT]

/-- When a directory that was copied is emptied, its path leads to it if it did so before the copy. -/
theorem way {e : Disk} (hfree : d.find? T = none) (hgrafted : Grafted d e S T)
    (hdir : d.find? S = some .dir) :
    (e.eraseUnder S).resolve .entry src = (d.eraseUnder S).resolve .entry src ∧
      ∀ r, (d.eraseUnder S).resolve .entry src = .ok r → r.node = some .dir →
        EntryAt (d.eraseUnder S) src S := by
  obtain ⟨slash, hsource⟩ := h.source.reaches_dir hdir
  have hlose := loseAlike_eraseUnder (hgrafted.keeps htree hfree) S
  obtain ⟨hsame, hthere⟩ :=
    resolve_lose hlose ⟨rfl, hgrafted.working⟩ (hsource .entry) (by simp [hdir])
  refine ⟨hsame, fun r hr hn => ?_⟩
  obtain rfl := hthere r hr (by simp [hn])
  exact ⟨_, hr, rfl, rfl⟩

/-- Copying and removing does what the renaming did. -/
theorem carries (hc : Carriable d src target S T) : Carries d d' src target := by
  have hready := h.ready htree hc.free hc.links
  rcases copyInto_decides hready (deep_pathLimit src) with ⟨-, e, hcopy, hgrafted⟩ | ⟨hunfit, -⟩
  swap
  · exact absurd hc.fits hunfit
  have hkeeps := hgrafted.keeps htree hc.free
  obtain ⟨slash, hsource, hends⟩ := h.reaches_source fun text => by simpa using hc.links [] text
  -- What is removed is what was there before the copy, and its path still leads there.
  have hnode : (slash = false ∧ ∃ c m shared, e.find? S = some (.file c m shared)) ∨
      (e.find? S = some .dir ∧ EntryAt (e.eraseUnder S) src S) := by
    obtain ⟨n, hn⟩ := Option.isSome_iff_exists.mp h.there
    cases n with
    | link text => exact absurd hn (by simpa using hc.links [] text)
    | file c m shared => exact .inl ⟨hends.resolve_left (by simp [hn]), c, m, shared, hkeeps _ _ hn⟩
    | dir =>
      obtain ⟨r, hr, hlocation⟩ := hc.way hn
      rw [← (h.way htree hc.free hgrafted hn).1] at hr
      exact .inr ⟨hkeeps _ _ hn, r, hr, hlocation⟩
  obtain ⟨d'', hout, hcleared⟩ := removePath_clears hgrafted.tree h.source.ne_nil
    (hsource.mono h.there hkeeps hgrafted.working) hnode
  exact ⟨d'', (outcome_bind_of_ok hcopy).trans hout, h.sameTree htree hc.free hgrafted hcleared⟩

/-! ## What is in the way -/

/-- A copy makes no link, and so it is not like a tree with links. -/
theorem links_of_carries (hfree : d.find? T = none) (hcarries : Carries d d' src target) :
    ∀ j text, d.find? (S ++ j) ≠ some (.link text) := by
  intro j text hlink
  obtain ⟨d'', hout, hsame⟩ := hcarries
  obtain ⟨⟨⟩, e, hcopy, hremove⟩ := outcome_bind_eq_ok.mp hout
  have hloses := removePath_loses src e
  have hadds := copyInto_addsNoLink pathLimit src target d
  rw [hremove] at hloses
  rw [copyRecursive] at hcopy
  rw [hcopy] at hadds
  -- The renaming left the link at the target, where nothing was that copying could have kept.
  have harrived : d'.find? (T ++ j) = some (.link text) :=
    ((h.relocated htree hfree).arrived j).trans hlink
  have hbefore := hadds.links _ _ (hloses _ _ (hsame.link harrived))
  rw [htree.none_of_front hfree] at hbefore
  cases hbefore

/-- A renaming puts nothing where nothing was, but at and beneath its target. -/
theorem not_isSome_of_none {m : Node} (hm : d.find? T = some m) (hdir : d.find? S ≠ some .dir)
    (hl : d.find? l = none) : ¬ (d'.find? l).isSome := by
  intro hsome
  rcases h.cases htree with ⟨-, rfl⟩ | ⟨-, -, hmoved⟩
  · rw [hl] at hsome
    cases hsome
  by_cases hS : S <+: l
  · obtain ⟨j, rfl⟩ := hS
    rw [hmoved.gone] at hsome
    cases hsome
  by_cases hT : T <+: l
  · obtain ⟨j, rfl⟩ := hT
    by_cases hj : j = []
    · rw [hj, List.append_nil, hm] at hl
      cases hl
    · -- There would have to be something beneath what is no directory.
      rw [hmoved.arrived] at hsome
      obtain ⟨n, hn⟩ := Option.isSome_iff_exists.mp hsome
      exact hdir (htree.front hj hn)
  · rw [hmoved.others l hS hT, hl] at hsome
    cases hsome

/-- A file that is copied along a link that leads nowhere is not where a renaming puts it. -/
theorem not_carries_file {m : Node} (hm : d.find? T = some m)
    (hmissing : d.pathExists target = false) (hdir : d.isDir src = false) :
    ¬ Carries d d' src target := by
  rintro ⟨d'', hout, hsame⟩
  obtain ⟨⟨⟩, e, hcopy, hremove⟩ := outcome_bind_eq_ok.mp hout
  obtain ⟨t, ht, -⟩ := h.target
  rw [copyRecursive, pathLimit, outcome_copyInto_file hdir] at hcopy
  obtain ⟨k, hfile, l, c, mode, hl, hnone, rfl⟩ := copyOne_missing ht hmissing hcopy
  obtain ⟨s, hs, hS, hdots⟩ := h.source
  have hnode : d.find? S = s.node := hS ▸ (node_of_resolve hs hdots).2
  have hthere := h.there
  -- The removal takes away what the path of the source names, and not the new file.
  have hkeeps (k : Location) (n : Node) (hk : d.find? k = some n) :
      (d.set l (.file c mode none)).find? k = some n := find?_set_of_some hnone hk _
  have hs' := resolve_mono hkeeps rfl hs (by rwa [← hnode, ← Option.isSome_iff_ne_none])
  obtain rfl := removePath_erases hs' ((Extends.set hnone _).fileAt hfile).not_isDir hremove
  have hne : l ≠ s.location := by
    rintro rfl
    rw [← hS, hnone] at hthere
    cases hthere
  refine h.not_isSome_of_none htree hm (fun hSdir => ?_) hnone (hsame.isSome (l := l) ?_)
  · obtain ⟨slash, hreaches⟩ := h.source.reaches_dir hSdir
    have hisDir := isDir_iff.mpr ⟨S, hreaches.dirAt hSdir⟩
    rw [hdir] at hisDir
    cases hisDir
  · rw [find?_erase, if_neg hl, if_neg hne, find?_set, if_neg hl, if_pos rfl]
    rfl

/-- Nothing is carried to where something is. -/
theorem free_of_carries (hmissing : d.pathExists target = false)
    (hcarries : Carries d d' src target) : d.find? T = none := by
  by_contra hsome
  obtain ⟨m, hm⟩ := Option.ne_none_iff_exists'.mp hsome
  cases hdir : d.isDir src with
  | false => exact h.not_carries_file htree hm hmissing hdir hcarries
  | true =>
    -- A directory is not made where a link is.
    obtain ⟨d'', hout, -⟩ := hcarries
    obtain ⟨⟨⟩, e, hcopy, -⟩ := outcome_bind_eq_ok.mp hout
    obtain ⟨t, ht, rfl, hdots⟩ := h.target
    have hnode : t.node.isSome := by
      rw [← (node_of_resolve ht hdots).2, hm]
      rfl
    have hnodir : d.isDir target = false := by
      by_contra hdir
      obtain ⟨l, r, hr, -, hn⟩ := isDir_iff.mp (by simpa using hdir)
      simp [pathExists, stat, hr, hn] at hmissing
    obtain ⟨e', hfailed⟩ := outcome_createDirAll_of_some ht hdots hnode hnodir
    rw [copyRecursive, pathLimit, outcome_copyInto_dir hdir, outcome_about, hfailed] at hcopy
    cases hcopy

/-- What was carried to a free place can be carried. -/
theorem carriable (hfree : d.find? T = none) (hcarries : Carries d d' src target) :
    Carriable d src target S T := by
  have hlinks := h.links_of_carries htree hfree hcarries
  have hready := h.ready htree hfree hlinks
  obtain ⟨d'', hout, -⟩ := hcarries
  obtain ⟨⟨⟩, e, hcopy, hremove⟩ := outcome_bind_eq_ok.mp hout
  have hdecides := copyInto_decides hready (deep_pathLimit src)
  rw [copyRecursive] at hcopy
  rw [hcopy] at hdecides
  obtain ⟨hfits, hgrafted⟩ := hdecides.of_ok
  refine ⟨hfree, hlinks, hfits, fun hdir => ?_⟩
  obtain ⟨slash, hreaches⟩ := h.source.reaches_dir hdir
  have hkeeps := hgrafted.keeps htree hfree
  -- The directory was taken away by its path when it was empty already.
  obtain ⟨hsame, hway⟩ := h.way htree hfree hgrafted hdir
  rw [outcome_removePath_dir (hreaches.mono h.there hkeeps hgrafted.working) (hkeeps _ _ hdir),
    outcome_about_eq_ok] at hremove
  rcases rmdir_cases src (e.eraseUnder S) with ⟨e', hfailed⟩ | ⟨r, hr, hnode, -, -⟩
  · rw [hfailed] at hremove
    cases hremove
  · exact hway r (hsame ▸ hr) hnode

/-- To a path that leads to nothing, copying and removing does what the renaming did exactly if what
    was renamed can be carried. -/
theorem carries_iff (hmissing : d.pathExists target = false) :
    Carries d d' src target ↔ Carriable d src target S T :=
  ⟨fun hcarries => h.carriable htree (h.free_of_carries htree hmissing hcarries) hcarries,
    h.carries htree⟩

end Renamed

/-- For something that could be renamed to a path that leads to nothing, if there were one device only:
    copying and removing does the same exactly if it can be carried. -/
theorem rename_carries_iff (htree : Tree d)
    (hok : outcome (rename src target) d.joined = (.ok (), d'))
    (hmissing : d.pathExists target = false) :
    ∃ S T, EntryAt d src S ∧ EntryAt d target T ∧
      (Carries d d' src target ↔ Carriable d src target S T) := by
  obtain ⟨S, T, hjoined⟩ := rename_ok hok
  have h := hjoined.of_joined
  exact ⟨S, T, h.source, h.target, h.carries_iff htree hmissing⟩

/-- A directory is carried with the file in it. -/
theorem rename_carries_iff_beside : ∃ d d' : Disk, Tree d ∧ d.split = true ∧
    outcome (rename ⟨"/a"⟩ ⟨"/b"⟩) d.joined = (.ok (), d') ∧ d.pathExists ⟨"/b"⟩ = false ∧
      Carries d d' ⟨"/a"⟩ ⟨"/b"⟩ := by
  let d : Disk := { Beside.disk with split := true }
  have htree : Tree d := .of_entries (by decide) (by decide) rfl
  have hplain : PlainTree d := .of_entries (by decide) (by decide) rfl
  have hsrc (final : Final) := (resolve_joined d final ⟨"/a"⟩).symm.trans (Beside.resolve_source final)
  have hdst (final : Final) := (resolve_joined d final ⟨"/b"⟩).symm.trans (Beside.resolve_target final)
  have hmissing : d.pathExists ⟨"/b"⟩ = false := by simp [pathExists, stat, hdst]
  obtain ⟨S, T, ⟨s, hs, rfl, -⟩, ⟨t, ht, rfl, -⟩, hiff⟩ :=
    rename_carries_iff htree Beside.outcome_rename hmissing
  obtain rfl := Except.ok.inj ((hsrc .entry).symm.trans hs)
  obtain rfl := Except.ok.inj ((hdst .entry).symm.trans ht)
  refine ⟨d, _, htree, rfl, Beside.outcome_rename, hmissing, hiff.mpr ?_⟩
  exact {
    free := rfl
    links := fun j text => hplain.links _ text
    fits := fun front name hname => by
      obtain ⟨rfl, rfl⟩ : front = [] ∧ name = "f" := by
        simpa [d, Beside.disk, keys, List.append_eq_singleton_iff] using isSome_find?_iff.mp hname
      exact ⟨⟨by decide, by decide, by decide⟩, by decide, by decide, by decide⟩
    way := fun _ => by
      have hemptied : (d.eraseUnder ["a"]).resolve .entry ⟨"/a"⟩ =
          .ok ⟨["a"], some .dir, false, false⟩ :=
        resolve_root_name (by decide) (by decide) trivial
      exact ⟨_, hemptied, rfl, rfl⟩ }

/-- A directory with a link in it that leads nowhere could be renamed on one device, and is not carried
    to another. -/
theorem exists_link_not_carried : ∃ (d d' : Disk) (src target : Path), Tree d ∧ d.split = true ∧
    d.pathExists src = true ∧ d.pathExists target = false ∧
      outcome (rename src target) d.joined = (.ok (), d') ∧ ¬ Carries d d' src target := by
  let d : Disk := ⟨[(["a"], .dir), (["a", "l"], .link "nowhere")], [], true⟩
  have htree : Tree d := .of_entries (by decide) (by decide) rfl
  have hsrc (final : Final) : d.resolve final ⟨"/a"⟩ = .ok ⟨["a"], some .dir, false, false⟩ :=
    resolve_root_name (by decide) (by decide) trivial
  have hdst (final : Final) : d.resolve final ⟨"/b"⟩ = .ok ⟨["b"], none, false, false⟩ :=
    resolve_root_name (by decide) (by decide) trivial
  have hrename : outcome (rename ⟨"/a"⟩ ⟨"/b"⟩) d.joined = _ :=
    outcome_rename rfl ((resolve_joined d _ _).trans (hsrc .entry))
      ((resolve_joined d _ _).trans (hdst .entry)) ⟨rfl, rfl⟩ rfl (.inl rfl)
      ⟨by decide, by decide⟩ fun m hm => by cases hm
  refine ⟨d, _, ⟨"/a"⟩, ⟨"/b"⟩, htree, rfl, by simp [pathExists, stat, hsrc],
    by simp [pathExists, stat, hdst], hrename, fun hcarries => ?_⟩
  obtain ⟨S, T, hjoined⟩ := rename_ok hrename
  have h := hjoined.of_joined
  obtain ⟨s, hs, rfl, -⟩ := h.source
  obtain ⟨t, ht, rfl, -⟩ := h.target
  obtain rfl := Except.ok.inj ((hsrc .entry).symm.trans hs)
  obtain rfl := Except.ok.inj ((hdst .entry).symm.trans ht)
  exact h.links_of_carries htree rfl hcarries ["l"] "nowhere" rfl

/-! ## Moves across devices -/

/-- A move across devices that was not refused makes the directories above its target, copies, and
    takes the source away. -/
theorem outcome_movePath_of_split (hs : d.split = true) (hfree : d.moveRefusal src dst = none) :
    outcome (movePath src dst) d = outcome (do
      makeParent (d.moveTarget src dst)
      copyRecursive src (d.moveTarget src dst)
      removePath src) d := by
  have hpaves := makeParent_paves (d.moveTarget src dst) d
  rw [outcome_movePath, hfree]
  dsimp only
  rw [outcome_bind, outcome_bind]
  rcases hmade : outcome (makeParent (d.moveTarget src dst)) d with ⟨f | u, d₁⟩
  · rfl
  · rw [hmade] at hpaves
    have hrename := rename_of_split src (d.moveTarget src dst) (hpaves.split.trans hs)
    dsimp only
    rw [carry, outcome_bind_of_ok (outcome_attempt _ _), hrename]
    rfl

/-- A move across devices to a path that leads to nothing when the directories above it are there: it
    does what a renaming on one device would do exactly if what is moved can be carried. -/
theorem movePath_across (htree : Tree d) (hs : d.split = true)
    (hfree : d.moveRefusal src dst = none) (htarget : d.moveTarget src dst = target)
    (hmade : outcome (makeParent target) d = (.ok (), d₁))
    (hmissing : d₁.pathExists target = false)
    (hok : outcome (rename src target) d₁.joined = (.ok (), d')) :
    ∃ S T, EntryAt d₁ src S ∧ EntryAt d₁ target T ∧
      ((∃ d'', outcome (movePath src dst) d = (.ok (), d'') ∧ SameTree d' d'') ↔
        Carriable d₁ src target S T) := by
  have hpaves := makeParent_paves target d
  rw [hmade] at hpaves
  obtain ⟨S, T, hjoined⟩ := rename_ok hok
  have h := hjoined.of_joined
  refine ⟨S, T, h.source, h.target, Iff.trans ?_ (h.carries_iff (hpaves.tree htree) hmissing)⟩
  rw [outcome_movePath_of_split hs hfree, htarget, outcome_bind_of_ok hmade]
  rfl

end GameInstaller.Disk
