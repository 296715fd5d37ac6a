import GameInstaller.Proofs.Disk.Visiting

/-!
# Copies of files and directories

Where no file has two names, a call of a copy that succeeds puts a copy of its source at the place of
its target, and changes nothing else that was there.

* `OneNamed`  no file has two names
* `Copied`    a node is a copy of another
* `Visited`   what a call changes

## Key results

- `find?_copyFile`: copying a file changes nothing but the target
- `copyFile_ok`: a file is copied with its content
- `visit_copies`: what one call changes
-/

namespace GameInstaller.Disk

variable {d d' d₁ : Disk} {p src dst : Path} {k l : Location}

/-! ## Files with one name -/

/-- No file has two names. -/
def OneNamed (d : Disk) : Prop := ∀ k l, OneFile d k l → k = l

/-- Files without link numbers have one name each. -/
theorem OneNamed.of_entries (h : ∀ e ∈ d.entries, ∀ c m id, e.2 ≠ .file c m (some id)) :
    OneNamed d := by
  rintro k l (rfl | ⟨c, m, _, _, id, hk, -⟩)
  · rfl
  · rw [find?] at hk
    split at hk
    · cases hk
    · exact absurd rfl (h _ (mem_of_lookup hk) c m id)

/-- Files that have a link number had it before. -/
def NoNewNames (d d' : Disk) : Prop := ∀ l c m id, d'.find? l = some (.file c m (some id)) →
  ∃ c' m', d.find? l = some (.file c' m' (some id))

instance : IsPreorder Disk NoNewNames where
  refl _ _ c m _ h := ⟨c, m, h⟩
  trans _ _ _ h h' l c m id hl := by
    obtain ⟨c', m', hl'⟩ := h' l c m id hl
    exact h l c' m' id hl'

theorem NoNewNames.oneNamed (h : NoNewNames d d') (hone : OneNamed d) : OneNamed d' := by
  rintro k l (rfl | ⟨c, m, c', m', id, hk, hl⟩)
  · rfl
  · obtain ⟨c₁, m₁, hk'⟩ := h k c m id hk
    obtain ⟨c₂, m₂, hl'⟩ := h l c' m' id hl
    exact hone k l (.inr ⟨c₁, m₁, c₂, m₂, id, hk', hl'⟩)

theorem noNewNames_set_file (l : Location) (c : ByteArray) (m : Nat) :
    NoNewNames d (d.set l (.file c m none)) := by
  intro k c' m' id hk
  rw [find?_set] at hk
  split at hk
  · cases hk
  split at hk
  · cases hk
  · exact ⟨c', m', hk⟩

theorem noNewNames_setContent {c : ByteArray} {m : Nat} {shared : Option Nat} (hl : l ≠ [])
    (hfile : d.find? l = some (.file c m shared)) (content : ByteArray) (mode : Nat) :
    NoNewNames d (d.setContent l content mode shared) := by
  intro k c' m' id hk
  have hrefills := Refills.setContent hl hfile content mode
  have hsome := isSome_find?_iff.mp (Option.isSome_of_eq_some hk)
  rw [keys_setContent hl hfile, ← isSome_find?_iff] at hsome
  obtain ⟨n, hn⟩ := Option.isSome_iff_exists.mp hsome
  obtain ⟨n', hn', hshape⟩ := hrefills.keeps k n hn
  obtain rfl := Option.some.inj (hk.symm.trans hn')
  obtain ⟨c₁, m₁, rfl⟩ := Node.eq_file_of_shape hshape.symm
  exact ⟨c₁, m₁, hn⟩

theorem AddsDirs.noNewNames (h : AddsDirs d d') : NoNewNames d d' := by
  intro l c m id hl
  rcases h.dirs l with hsame | ⟨-, hdir⟩
  · exact ⟨c, m, by rw [← hsame, hl]⟩
  · rw [hl] at hdir
    cases hdir

theorem update_noNewNames (p : Path) (change : ByteArray → ByteArray) (mode : Nat) :
    Leads NoNewNames (update p change mode) := by
  intro d
  rcases update_cases p change mode d with ⟨e, hout⟩ | ⟨r, c, m, shared, hr, hn, hout⟩ |
    ⟨r, -, -, -, hout⟩
  · rw [hout]
    exact refl_of NoNewNames d
  · obtain ⟨-, hne, hfind⟩ := resolve_entry d _ hr (by simp [hn])
    rw [hout]
    exact noNewNames_setContent hne (hfind.trans hn) _ _
  · rw [hout]
    exact noNewNames_set_file _ _ _

theorem chmod_noNewNames (p : Path) (mode : Nat) : Leads NoNewNames (chmod p mode) := by
  intro d
  rcases chmod_cases p mode d with hsame | ⟨r, c, m, shared, hr, hn, hout⟩
  · rw [hsame]
    exact refl_of NoNewNames d
  · obtain ⟨-, hne, hfind⟩ := resolve_entry d _ hr (by simp [hn])
    rw [hout]
    exact noNewNames_setContent hne (hfind.trans hn) _ _

theorem copyFile_noNewNames (src dst : Path) : Leads NoNewNames (copyFile src dst) :=
  .copyFile (update_noNewNames dst) (chmod_noNewNames dst)

/-! ## Files that are copied on a tree -/

/-- An update that succeeds leaves a file, with the changed content. -/
theorem PlainTree.update_ok (h : PlainTree d) {change : ByteArray → ByteArray} {mode : Nat}
    (hok : outcome (update p change mode) d = (.ok (), d')) :
    FileAt d' p (place d.working p) ∧
      d'.bytesAt (place d.working p) = change (d.bytesAt (place d.working p)) := by
  rcases update_cases p change mode d with ⟨e, hout⟩ | ⟨r, c, m, shared, hr, hn, hout⟩ |
    ⟨r, hr, hn, hslash, hout⟩
  · rw [hout] at hok
    cases hok
  · obtain ⟨hplace, -, -⟩ := h.resolve_ok hr
    have hp : FileAt d p r.location := ⟨r, c, m, shared, hr, rfl, hn⟩
    obtain ⟨d₁, hout₁, hrefills, hbytes⟩ := outcome_update_of_fileAt hp change mode
    rw [hout₁] at hok
    cases hok
    rw [← hplace]
    exact ⟨hrefills.extending.fileAt hp, hbytes _ (.refl d _)⟩
  · obtain ⟨hplace, hfind, -⟩ := h.resolve_ok hr
    have hnew := resolve_set hr hn hslash (change ByteArray.empty) mode none
    have hfile : FileAt d' p r.location := by
      rw [hout] at hok
      cases hok
      exact ⟨_, _, _, _, hnew, rfl, rfl⟩
    refine ⟨hplace ▸ hfile, ?_⟩
    rw [hout] at hok
    cases hok
    rw [← hplace, bytesAt, bytesAt, hfind, hn, find?_set, if_neg hfile.find?.1, if_pos rfl]

/-- Where no file has two names, all places but its own are avoided by a path. -/
theorem OneNamed.avoids (hone : OneNamed d) (h : PlainTree d) (hl : l ≠ place d.working p) :
    Avoids d p l := by
  intro k hk hsame
  obtain rfl := h.place_of_fileAt hk
  exact hl (hone _ _ hsame).symm

/-- Copying a file changes nothing but the target. -/
theorem find?_copyFile (h : PlainTree d) (hone : OneNamed d) (src : Path)
    (hl : l ≠ place d.working dst) : (outcome (copyFile src dst) d).2.find? l = d.find? l := by
  -- What was there is avoided by the path, and what is new is at its place.
  cases hn : d.find? l with
  | some n => exact (copyFile_shuns src dst l d n hn (hone.avoids h hl)).1
  | none =>
    have hleads : Leads (GainsFrom d.working (· = place d.working dst)) (copyFile src dst) :=
      .copyFile (update_gains rfl) (chmod_gains _ _ dst)
    by_contra hsome
    exact hl ((hleads d h rfl).of_new hn (Option.isSome_iff_ne_none.mpr hsome))

/-- A file is copied with its content and its permission bits. -/
theorem copyFile_ok (h : PlainTree d) (hone : OneNamed d)
    (hne : place d.working src ≠ place d.working dst)
    (hok : outcome (copyFile src dst) d = (.ok (), d')) :
    ∃ c m shared shared', d.find? (place d.working src) = some (.file c m shared) ∧
      d'.find? (place d.working dst) = some (.file c m shared') := by
  rcases copyFile_cases src dst d with ⟨e, hfailed⟩ | ⟨l, hsrc⟩
  · rw [hfailed] at hok
    cases hok
  obtain rfl := h.place_of_fileAt hsrc
  obtain ⟨r, c, m, shared, hr, hplace, hn⟩ := id hsrc
  obtain ⟨-, hfile, -⟩ := h.resolve_ok hr
  rw [hplace, hn] at hfile
  rw [outcome_copyFile_of_file hr hn] at hok
  obtain ⟨⟨⟩, d₁, hempty, hok⟩ := outcome_bind_eq_ok.mp hok
  obtain ⟨content, d₂, hread, hok⟩ := outcome_bind_eq_ok.mp hok
  obtain ⟨⟨⟩, d₃, hwrite, hchmod⟩ := outcome_bind_eq_ok.mp hok
  have hgains := update_gains (W := fun _ => True) (w := d.working) (p := dst) trivial
    (fun _ => ByteArray.empty) m d h rfl
  have hkept := update_shuns dst _ (fun _ => ByteArray.empty) m d _ hfile (hone.avoids h hne)
  have hrefills := (update_adds dst (fun _ => ByteArray.empty) m).refills d
  rw [hempty] at hgains hkept hrefills
  -- The source is still what it was when it is read.
  rw [outcome_readBytes_of_fileAt (hrefills.extending.fileAt hsrc), bytesAt, hkept.1] at hread
  cases hread
  obtain ⟨hdst, hbytes⟩ := hgains.tree.update_ok hwrite
  obtain ⟨d₄, shared₄, hchmod', hfound, -⟩ := outcome_chmod_of_fileAt hdst m
  rw [hchmod'] at hchmod
  cases hchmod
  rw [hbytes, hgains.working] at hfound
  exact ⟨c, m, shared, shared₄, hfile, hfound⟩

/-- A file can be copied to where nothing is. -/
theorem exists_outcome_copyFile {r : Resolved} (hsrc : FileAt d src l)
    (hr : d.resolve .follow dst = .ok r) (hn : r.node = none) (hslash : r.slash = false) :
    ∃ d', outcome (copyFile src dst) d = (.ok (), d') := by
  obtain ⟨s, c, m, shared, hs, -, hfile⟩ := hsrc
  exact ⟨_, outcome_copyFile_new hs hfile hr hn hslash⟩

/-! ## What one call changes -/

/-- A directory is a copy of a directory, and a file one of a file with its content and its permission
    bits. -/
inductive Copied : Node → Node → Prop
  | dir : Copied .dir .dir
  | file (c : ByteArray) (m : Nat) (shared shared' : Option Nat) :
      Copied (.file c m shared) (.file c m shared')

/-- What a call that succeeds changes: at the target there is a copy of the source, and where something
    else is new, it is a directory. -/
structure Visited (d d' : Disk) (k l : Location) : Prop where
  copied : ∃ n n', d.find? k = some n ∧ d'.find? l = some n' ∧ Copied n n'
  elsewhere : ∀ j, j ≠ l → d'.find? j = d.find? j ∨ (d.find? j = none ∧ d'.find? j = some .dir)
  oneNamed : OneNamed d'

/-- What was there stays as it is, but at the target. -/
theorem Visited.find?_eq (h : Visited d d' k l) {j : Location} (hj : j ≠ l) {n : Node}
    (hn : d.find? j = some n) : d'.find? j = some n := by
  rcases h.elsewhere j hj with hsame | ⟨hnone, -⟩
  · rw [hsame, hn]
  · rw [hn] at hnone
    cases hnone

theorem visit_copies {more : List (Path × Path)} (h : PlainTree d) (hone : OneNamed d)
    (hne : place d.working src ≠ place d.working dst)
    (hvisit : outcome (visit src dst) d = (.ok more, d')) :
    Visited d d' (place d.working src) (place d.working dst) := by
  rcases visit_ok hvisit with ⟨-, hcopy, -⟩ | ⟨hdir, hmade, -⟩
  · obtain ⟨⟨⟩, d₁, hparent, hcopy⟩ := outcome_bind_eq_ok.mp hcopy
    rw [outcome_about_eq_ok] at hcopy
    have hadds := makeParent_addsDirs dst d
    have hgains := makeParent_gains d.working dst d h rfl
    rw [hparent] at hadds hgains
    have hone₁ := hadds.noNewNames.oneNamed hone
    have hcopied := copyFile_ok hgains.tree hone₁ (by rwa [hgains.working]) hcopy
    have helsewhere (j : Location) (hj : j ≠ place d₁.working dst) := find?_copyFile hgains.tree hone₁ src hj
    have hnames := copyFile_noNewNames src dst d₁
    rw [hcopy] at helsewhere hnames
    rw [hgains.working] at hcopied helsewhere
    obtain ⟨c, m, shared, shared', hsrc, hdst⟩ := hcopied
    refine ⟨⟨_, _, ?_, hdst, .file c m shared shared'⟩, fun j hj => ?_, hnames.oneNamed hone₁⟩
    · rcases hadds.dirs (place d.working src) with hsame | ⟨-, hdir⟩
      · rw [← hsame, hsrc]
      · rw [hsrc] at hdir
        cases hdir
    · rw [helsewhere j hj]
      exact hadds.dirs j
  · have hadds := createDirAll_addsDirs dst d
    rw [hmade] at hadds
    exact {
      copied := ⟨_, _, h.find?_of_isDir hdir, h.createDirAll_ok hmade, .dir⟩
      elsewhere := fun j _ => hadds.dirs j
      oneNamed := hadds.noNewNames.oneNamed hone }

end GameInstaller.Disk
