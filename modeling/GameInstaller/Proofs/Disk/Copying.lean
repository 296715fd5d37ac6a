import GameInstaller.Proofs.Disk.Refilling

/-!
# What copying does to its source

Copying empties a target before it reads the source.  Paths to files go on leading to them, and a
file loses its content only where a path into the target leads to it; a file that is copied onto
itself does, and the copy succeeds.

* `Inside`   names that lead from a directory down
* `Written`  a path into the target of a copy leads to the file at a location
* `Spreads`  what is not written to by a copy stays as it is

## Key results

- `copyInto_spreads`: copying a tree leaves all files alone that the paths into the target avoid
- `outcome_copyFile_onto`: copying a file onto itself empties it
- `copyTree_spares`: what copying does to the files that were there
- `exists_source_lost`: a copy may succeed and lose its source
-/

namespace GameInstaller

/-- The path that names lead to, one after the other. -/
def Path.descend (p : Path) (names : List String) : Path := names.foldl Path.child p

namespace Disk

variable {d d₁ d₂ d' : Disk} {p : Path} {k l : Location}

/-! ## Copying trees -/

/-- Names that lead from a directory down, each of them listed in the directory before it. -/
def Inside (d : Disk) (p : Path) : List String → Prop
  | [] => True
  | name :: rest => d.isDir p = true ∧ name ∈ d.namesIn p ∧ Inside d (p.child name) rest

/-- A path into the target of a copy leads to the file at a location, and what is copied to it is a
    file. -/
def Written (d : Disk) (src target : Path) (l : Location) : Prop :=
  ∃ names k k', Inside d src names ∧ FileAt d (src.descend names) k' ∧
    FileAt d (target.descend names) k ∧ OneFile d k l

/-- Everything stays where it is, and all that is not written to by a copy stays as it is. -/
structure Spreads (src target : Path) (d d' : Disk) : Prop extends Refills d d' where
  only : ∀ l n, d.find? l = some n → d'.find? l = some n ∨ Written d' src target l

theorem Inside.refills (hd : Refills d d') {names : List String} (h : Inside d p names) :
    Inside d' p names := by
  induction names generalizing p with
  | nil => trivial
  | cons name rest ih =>
    obtain ⟨hdir, hname, hrest⟩ := h
    exact ⟨hd.extending.isDir hdir, hd.extending.mem_namesIn hdir hname, ih hrest⟩

theorem Written.refills {src target : Path} (h : Written d src target l) (hd : Refills d d') :
    Written d' src target l := by
  obtain ⟨names, k, k', hinside, hsrc, htarget, hone⟩ := h
  exact ⟨names, k, k', hinside.refills hd, hd.extending.fileAt hsrc, hd.extending.fileAt htarget,
    hone.refills hd⟩

namespace Spreads

variable {src target : Path}

theorem refl : Spreads src target d d := ⟨.refl, fun _ _ h => .inl h⟩

theorem trans (h : Spreads src target d d₁) (h' : Spreads src target d₁ d₂) :
    Spreads src target d d₂ where
  toRefills := h.toRefills.trans h'.toRefills
  only l n hn := by
    rcases h.only l n hn with hsame | hwritten
    · exact h'.only l n hsame
    · exact .inr (hwritten.refills h'.toRefills)

theorem of_addsDirs (h : AddsDirs d d') : Spreads src target d d' :=
  ⟨h.refills, fun _ _ hn => .inl (h.find?_eq hn)⟩

/-- What is copied from a directory is copied from what is in it. -/
theorem of_child {name : String} (h : Spreads (src.child name) (target.child name) d d')
    (hdir : d.isDir src = true) (hname : name ∈ d.namesIn src) : Spreads src target d d' where
  toRefills := h.toRefills
  only l n hn := by
    refine (h.only l n hn).imp_right ?_
    rintro ⟨names, k, k', hinside, hsrc, htarget, hone⟩
    have hinside' : Inside d' src (name :: names) :=
      ⟨h.extending.isDir hdir, h.extending.mem_namesIn hdir hname, hinside⟩
    exact ⟨name :: names, k, k', hinside', hsrc, htarget, hone⟩

end Spreads

theorem copyFile_spreads (src target : Path) (d : Disk) :
    Spreads src target d (outcome (copyFile src target) d).2 := by
  have hrefills := copyFile_refills src target d
  rcases copyFile_cases src target d with ⟨e, hfailed⟩ | ⟨k', hsrc⟩
  · rw [hfailed]
    exact .refl
  refine ⟨hrefills, fun l n hn => ?_⟩
  by_cases havoids : Avoids d target l
  · exact .inl (copyFile_shuns src target l d n hn havoids).1
  · unfold Avoids at havoids
    push Not at havoids
    obtain ⟨k, htarget, hone⟩ := havoids
    exact .inr ⟨[], k, k', trivial, hrefills.extending.fileAt hsrc,
      hrefills.extending.fileAt htarget, hone.refills hrefills⟩

theorem copyOne_spreads (src target : Path) (d : Disk) :
    Spreads src target d (outcome (copyOne src target) d).2 := by
  have hparent := makeParent_addsDirs target d
  unfold copyOne
  rcases hmade : outcome (makeParent target) d with ⟨f | u, d₁⟩
  · rw [hmade] at hparent
    rw [outcome_bind_of_error hmade]
    exact .of_addsDirs hparent
  · rw [hmade] at hparent
    rw [outcome_bind_of_ok hmade, outcome_about]
    exact (Spreads.of_addsDirs hparent).trans (copyFile_spreads src target d₁)

/-- Names that were listed are copied one after the other. -/
theorem spreads_forM {src target : Path} {f : String → Fs PUnit} {names : List String}
    (hf : ∀ name d, Spreads (src.child name) (target.child name) d (outcome (f name) d).2)
    (hdir : d.isDir src = true) (hnames : ∀ name ∈ names, name ∈ d.namesIn src) :
    Spreads src target d (outcome (names.forM f) d).2 := by
  induction names generalizing d with
  | nil => exact .refl
  | cons name rest ih =>
    obtain ⟨hname, hrest⟩ := List.forall_mem_cons.mp hnames
    have hspreads := (hf name d).of_child hdir hname
    rw [outcome_forM_cons]
    rcases hout : outcome (f name) d with ⟨e | u, d₁⟩
    · rw [hout] at hspreads
      rw [outcome_bind_of_error hout]
      exact hspreads
    · rw [hout] at hspreads
      rw [outcome_bind_of_ok hout]
      exact hspreads.trans (ih (hspreads.extending.isDir hdir) fun name' hname' =>
        hspreads.extending.mem_namesIn hdir (hrest name' hname'))

/-- Copying leaves everything alone that the paths into the target avoid. -/
theorem copyInto_spreads (depth : Nat) (src target : Path) (d : Disk) :
    Spreads src target d (outcome (copyInto depth src target) d).2 := by
  induction depth generalizing src target d with
  | zero => exact .refl
  | succ depth ih =>
    cases hdir : d.isDir src with
    | false =>
      rw [outcome_copyInto_file hdir]
      exact copyOne_spreads src target d
    | true =>
      have hadds := about_createDirAll_addsDirs target d
      rw [outcome_copyInto_dir hdir]
      rcases hmade : outcome (about target (createDirAll target)) d with ⟨f | u, d₁⟩
      · rw [hmade] at hadds
        exact .of_addsDirs hadds
      · rw [hmade] at hadds
        exact (Spreads.of_addsDirs hadds).trans (spreads_forM (fun name d => ih _ _ d)
          (hadds.extending.isDir hdir) fun _ => id)

/-! ## A file that is copied onto itself -/

/-- A file that is copied to one of its names is emptied before it is read, and nothing is left. -/
theorem outcome_copyFile_onto {src dst : Path} (hsrc : FileAt d src l) (hdst : FileAt d dst k)
    (hone : OneFile d k l) :
    ∃ d', outcome (copyFile src dst) d = (.ok (), d') ∧ d'.bytesAt l = ByteArray.empty := by
  obtain ⟨r, c, mode, shared, hr, -, hn⟩ := id hsrc
  obtain ⟨d₁, hempty, hrefills, hbytes⟩ :=
    outcome_update_of_fileAt hdst (fun _ => ByteArray.empty) mode
  have hread : outcome (readBytes src) d₁ = (.ok ByteArray.empty, d₁) := by
    rw [outcome_readBytes_of_fileAt (hrefills.extending.fileAt hsrc), hbytes l hone]
  have hdst₁ := hrefills.extending.fileAt hdst
  obtain ⟨d₂, hwrite, hrefills', hbytes'⟩ :=
    outcome_update_of_fileAt hdst₁ (fun _ => ByteArray.empty) mode
  have hdst₂ := hrefills'.extending.fileAt hdst₁
  obtain ⟨d₃, -, hchmod, -, hkept⟩ := outcome_chmod_of_fileAt hdst₂ mode
  refine ⟨d₃, ?_, ?_⟩
  · rw [outcome_copyFile_of_file hr hn, outcome_bind_of_ok hempty, outcome_bind_of_ok hread,
      outcome_bind_of_ok hwrite, hchmod]
  · have hone₁ := hone.refills hrefills
    rw [hkept l (hone₁.refills hrefills'), hbytes' k (.refl d₁ k)]

/-! ## Copying whole trees -/

theorem FileAt.isFile (h : FileAt d p l) : d.isFile p = true := by
  obtain ⟨r, c, m, shared, hr, -, hn⟩ := h
  simp [Disk.isFile, stat, hr, hn, Node.isFile]

theorem FileAt.not_isDir (h : FileAt d p l) : d.isDir p = false := by
  obtain ⟨r, c, m, shared, hr, -, hn⟩ := h
  simp [Disk.isDir, stat, hr, hn, Node.isDir]

theorem outcome_copyTree_of_exists {src : Path} (h : d.pathExists src = true) (dst : Path) :
    outcome (copyTree src dst) d = outcome (copyRecursive src (d.copyTarget src dst)) d := by
  unfold copyTree
  rw [outcome_bind_of_ok (outcome_get d), h]
  rfl

theorem outcome_copyTree_of_not_exists {src : Path} (h : d.pathExists src = false) (dst : Path) :
    outcome (copyTree src dst) d = (.error (.notFound src), d) := by
  unfold copyTree
  rw [outcome_bind_of_ok (outcome_get d), h]
  rfl

theorem outcome_copyTree_of_fileAt {src : Path} (h : FileAt d src l) (dst : Path) :
    outcome (copyTree src dst) d = outcome (copyOne src (d.copyTarget src dst)) d := by
  have hthere : d.pathExists src = true := by
    obtain ⟨r, c, m, shared, hr, -, hn⟩ := h
    simp [pathExists, stat, hr, hn]
  rw [outcome_copyTree_of_exists hthere, copyRecursive, pathLimit, outcome_copyInto_file h.not_isDir]

/-- The directory above what is there need not be made. -/
theorem outcome_makeParent_of_resolve {final : Final} {r : Resolved} (hr : d.resolve final p = .ok r) :
    outcome (makeParent p) d = (.ok (), d) := by
  unfold makeParent
  cases hq : p.parent? with
  | none => rfl
  | some q =>
    dsimp only
    rw [outcome_about, outcome_createDirAll_parent hq hr]
    rfl

/-- Any file that is copied to its own path is lost. -/
theorem outcome_copyTree_self (h : FileAt d p l) :
    ∃ d', outcome (copyTree p p) d = (.ok (), d') ∧ d'.bytesAt l = ByteArray.empty := by
  obtain ⟨r, _, _, _, hr, -, -⟩ := id h
  obtain ⟨d', hcopy, hbytes⟩ := outcome_copyFile_onto h h (.refl d l)
  have htarget : d.copyTarget p p = p := by
    rw [copyTarget, h.not_isDir, Bool.and_false, if_neg (by decide)]
  refine ⟨d', ?_, hbytes⟩
  rw [outcome_copyTree_of_fileAt h, htarget, copyOne,
    outcome_bind_of_ok (outcome_makeParent_of_resolve hr), outcome_about, hcopy]
  rfl

/-- What copying does to the files that were there, on a disk `d` that it leaves as `d'`. -/
structure SparingAccount (src dst : Path) (d d' : Disk) (result : Except Fault Unit) : Prop where
  /-- Paths to files at or under the source go on leading to them. -/
  leads : ∀ names l, FileAt d (src.descend names) l → FileAt d' (src.descend names) l
  /-- What is not written to by the copy stays as it is. -/
  spares : ∀ l n, d.find? l = some n →
    d'.find? l = some n ∨ Written d' src (d.copyTarget src dst) l
  /-- A file that is copied to one of its names loses its content, and the copy succeeds. -/
  onto : ∀ l d₁ k, FileAt d src l → outcome (makeParent (d.copyTarget src dst)) d = (.ok (), d₁) →
    FileAt d₁ (d.copyTarget src dst) k → OneFile d₁ k l →
      result = .ok () ∧ d'.bytesAt l = ByteArray.empty
  /-- Any other file that is copied stays as it is. -/
  beside : ∀ l, FileAt d src l →
    (∀ d₁ k, outcome (makeParent (d.copyTarget src dst)) d = (.ok (), d₁) →
      FileAt d₁ (d.copyTarget src dst) k → ¬ OneFile d₁ k l) → d'.find? l = d.find? l

/-- Copying, whether it succeeds or fails, leaves all files alone but those that a path into the target
    leads to; and of these, a file that is copied to itself is lost. -/
theorem copyTree_spares (src dst : Path) (d : Disk) :
    SparingAccount src dst d (outcome (copyTree src dst) d).2 (outcome (copyTree src dst) d).1 := by
  have hspreads : Spreads src (d.copyTarget src dst) d (outcome (copyTree src dst) d).2 := by
    cases hthere : d.pathExists src with
    | false =>
      rw [outcome_copyTree_of_not_exists hthere]
      exact .refl
    | true =>
      rw [outcome_copyTree_of_exists hthere]
      exact copyInto_spreads _ _ _ _
  exact {
    leads := fun names l h => hspreads.extending.fileAt h
    spares := hspreads.only
    onto := fun l d₁ k hsrc hmade htarget hone => by
      have hadds := makeParent_addsDirs (d.copyTarget src dst) d
      rw [hmade] at hadds
      obtain ⟨d', hcopy, hbytes⟩ :=
        outcome_copyFile_onto (hadds.extending.fileAt hsrc) htarget hone
      rw [outcome_copyTree_of_fileAt hsrc, copyOne, outcome_bind_of_ok hmade, outcome_about, hcopy]
      exact ⟨rfl, hbytes⟩
    beside := fun l hsrc havoids => by
      obtain ⟨-, c, m, shared, hfile⟩ := hsrc.find?
      have hadds := makeParent_addsDirs (d.copyTarget src dst) d
      rw [outcome_copyTree_of_fileAt hsrc, copyOne]
      rcases hmade : outcome (makeParent (d.copyTarget src dst)) d with ⟨f | u, d₁⟩
      · rw [hmade] at hadds
        rw [outcome_bind_of_error hmade, hfile]
        exact hadds.find?_eq hfile
      · rw [hmade] at hadds
        rw [outcome_bind_of_ok hmade, outcome_about, hfile]
        exact (copyFile_shuns src _ l d₁ _ (hadds.find?_eq hfile)
          fun k hk => havoids d₁ k hmade hk).1 }

/-- A file with content that is at the source is empty after a copy that succeeded. -/
theorem exists_source_lost : ∃ (d : Disk) (src dst : Path) (l : Location),
    FileAt d src l ∧ d.bytesAt l = "x".toUTF8 ∧ (outcome (copyTree src dst) d).1 = .ok () ∧
      (outcome (copyTree src dst) d).2.bytesAt l ≠ "x".toUTF8 := by
  let p : Path := ⟨"/f"⟩
  let d : Disk := ⟨[(["f"], .file "x".toUTF8 0o644 none)], [], false⟩
  have hfile : FileAt d p ["f"] := by
    have hproper : Path.IsProper "f" := ⟨⟨by decide, by decide⟩, by decide⟩
    have hresolve : d.resolve .follow p =
        .ok ⟨["f"], some (.file "x".toUTF8 0o644 none), false, false⟩ := by
      rw [resolve_absolute d .follow ["f"] (by decide), walk_cons _ _ hproper.ne_dot hproper.ne_up
        (by decide)]
      rfl
    exact ⟨_, _, _, _, hresolve, rfl, rfl⟩
  obtain ⟨d', hcopy, hbytes⟩ := outcome_copyTree_self hfile
  refine ⟨d, p, p, ["f"], hfile, rfl, by rw [hcopy], ?_⟩
  rw [hcopy]
  intro hsame
  exact absurd (hbytes.symm.trans hsame) (by decide)

end Disk

end GameInstaller
