import GameInstaller.Proofs.Disk.Copying
import GameInstaller.Proofs.Disk.Relocating

/-!
# What a move does

On one device a move makes the directories above its target and renames.  A move that fails takes
nothing back, and leaves the directories that it made.

* `Above`   a path above another one
* `Paves`   directories were made where paths of a kind lead
* `Moved`   what a move is meant to do

## Key results

- `makeParent_paves`: the directories above a path are made where paths above it lead
- `movePath_moves`: a move that succeeds does what it is meant to if nothing was at its target
- `movePath_fails`: what a move that fails leaves
- `exists_link_replaced`: a link that leads nowhere is lost when something is moved to it
- `exists_parent_left`: a move that fails may leave a directory
-/

namespace GameInstaller.Disk

variable {d d' d₁ d₂ : Disk} {p q src dst target : Path} {l S T : Location}

/-! ## Making directories above a path -/

/-- A path is above another one: it is the parent, or above that. -/
def Above (p q : Path) : Prop := ∃ parent, p.parent? = some parent ∧ Upward parent q

/-- Directories were made, each of them where a path of this kind leads; nothing else changed. -/
structure Paves (A : Path → Prop) (d d' : Disk) : Prop extends AddsDirs d d' where
  split : d'.split = d.split
  tree : Tree d → Tree d'
  made : ∀ l, d.find? l = none → (d'.find? l).isSome → ∃ q, A q ∧ DirAt d' q l

variable {A : Path → Prop}

instance : IsPreorder Disk (Paves A) where
  refl d := {
    toAddsDirs := .refl
    split := rfl
    tree := id
    made := fun l hnone hsome => by simp [hnone] at hsome }
  trans d d₁ d₂ h h' := {
    toAddsDirs := h.toAddsDirs.trans h'.toAddsDirs
    split := h'.split.trans h.split
    tree := fun htree => h'.tree (h.tree htree)
    made := fun l hnone hsome => by
      cases hmid : d₁.find? l with
      | none => exact h'.made l hmid hsome
      | some n =>
        -- What was made before still is where its path leads.
        obtain ⟨q, hq, hdir⟩ := h.made l hnone (Option.isSome_of_eq_some hmid)
        exact ⟨q, hq, hdir.extends h'.extending⟩ }

theorem mkdir_paves (h : A p) : Leads (Paves A) (mkdir p) := by
  intro d
  have hadds := mkdir_addsDirs p d
  rcases mkdir_cases p d with ⟨e, hout⟩ | ⟨r, hr, hn, hout⟩
  · rw [hout]
    exact refl_of (Paves A) d
  · rw [hout] at hadds ⊢
    have hends : Ends .follow r.slash r.node := by rw [hn]; trivial
    have hmade := resolve_set_node .dir (resolve_final hr hends) hn trivial
    exact {
      toAddsDirs := hadds
      split := rfl
      tree := fun htree => by
        obtain ⟨hfind, hparent⟩ := htree.resolve_ok hr
        exact htree.set (htree.resolve_proper hr) (hfind.trans hn) hparent .dir
      made := fun l hnone hsome => by
        by_cases hl : l = r.location
        · exact ⟨p, h, _, hmade, hl.symm, rfl⟩
        · rw [find?_set_of_ne _ hl, hnone] at hsome
          cases hsome }

/-- The directories above a path are made where paths above it lead. -/
theorem makeParent_paves (p : Path) : Leads (Paves (Above p)) (makeParent p) := by
  unfold makeParent
  cases hparent : p.parent? with
  | none => exact .of_quiet (.pure _)
  | some parent =>
    exact (Leads.createDirAll fun q hq => mkdir_paves ⟨parent, hparent, hq⟩).about parent

/-! ## Moves on one device -/

/-- On one device carrying is renaming. -/
theorem outcome_carry_of_not_split (hs : d.split = false) (src target : Path) :
    outcome (carry src target) d = outcome (about src (rename src target)) d := by
  unfold carry about
  rw [outcome_bind_of_ok (outcome_attempt _ _), outcome_bind_of_ok (outcome_attempt _ _)]
  rcases hout : outcome (rename src target) d with ⟨e | u, d'⟩
  · obtain ⟨rfl, -, hdevice⟩ := rename_error hout
    have hkind : e.kind ≠ .crossesDevices := fun hkind => by simp [hdevice.mp hkind] at hs
    dsimp only
    rw [if_neg hkind]
  · rfl

/-- A move that was not refused makes the directories above its target, and renames. -/
theorem outcome_movePath_of_not_split (hs : d.split = false) (hfree : d.moveRefusal src dst = none) :
    outcome (movePath src dst) d = outcome (do
      makeParent (d.moveTarget src dst)
      about src (rename src (d.moveTarget src dst))) d := by
  have hpaves := makeParent_paves (d.moveTarget src dst) d
  rw [outcome_movePath, hfree]
  dsimp only
  rw [outcome_bind, outcome_bind]
  rcases hmade : outcome (makeParent (d.moveTarget src dst)) d with ⟨f | u, d₁⟩
  · rfl
  · rw [hmade] at hpaves
    exact outcome_carry_of_not_split (hpaves.split.trans hs) src (d.moveTarget src dst)

theorem moveRefusal_eq_none_iff : d.moveRefusal src dst = none ↔ d.pathExists src = true ∧
    (d.isDir dst = true → src.fileName? ≠ none) ∧
      d.pathExists (d.moveTarget src dst) = false := by
  unfold moveRefusal
  cases d.pathExists src <;> cases d.isDir dst <;> cases src.fileName? <;>
    cases d.pathExists (d.moveTarget src dst) <;> simp

/-! ## Moves that succeed -/

/-- A place to which a path above the target leads. -/
def Paved (d : Disk) (target : Path) (l : Location) : Prop := ∃ q, Above target q ∧ DirAt d q l

/-- What a move is meant to do: what was at the place `S`, with all that was beneath it, is at the
    place `T`, where nothing was, and everything else is as it was.  What else is new are directories
    at places of the kind `W`; those in the source go with it. -/
structure Moved (d d' : Disk) (S T : Location) (W : Location → Prop) : Prop where
  vacant : d.find? T = none
  arrived : ∀ j n, d.find? (S ++ j) = some n → d'.find? (T ++ j) = some n
  gone : ∀ j, d'.find? (S ++ j) = none
  kept : ∀ l n, d.find? l = some n → ¬ S <+: l → d'.find? l = some n
  added : ∀ l, d.find? l = none → (d'.find? l).isSome →
    (∃ j, l = T ++ j ∧ (d.find? (S ++ j)).isSome) ∨
      (d'.find? l = some .dir ∧ (W l ∨ ∃ j, l = T ++ j ∧ W (S ++ j)))

/-- A path that named an entry before others were added names it still. -/
theorem EntryAt.of_extends {r : Resolved} (hr : d.resolve .entry p = .ok r) (hn : r.node ≠ none)
    (hd : Extends d d') (h : EntryAt d' p l) : EntryAt d p l ∧ (d.find? l).isSome := by
  obtain ⟨r', hr', hsame⟩ := hd.resolve hr hn
  obtain ⟨s, hs, rfl, hdots⟩ := h
  obtain rfl := Except.ok.inj (hr'.symm.trans hs)
  have hlocation : r'.location = r.location := congrArg (·.location) hsame
  have hdots' : r.dots = false := (congrArg (·.dots) hsame).symm.trans hdots
  obtain ⟨-, hfind⟩ := node_of_resolve hr hdots'
  rw [hlocation, hfind]
  exact ⟨⟨r, hr, rfl, hdots'⟩, Option.isSome_iff_ne_none.mpr hn⟩

/-- What is one file when directories were made was one before. -/
theorem OneFile.of_addsDirs (h : AddsDirs d d') (hone : OneFile d' S T) : OneFile d S T := by
  have hfile {l : Location} {c : ByteArray} {m : Nat} {shared : Option Nat}
      (hl : d'.find? l = some (.file c m shared)) : d.find? l = some (.file c m shared) := by
    rcases h.dirs l with hsame | ⟨-, hdir⟩
    · rw [← hsame, hl]
    · rw [hl] at hdir
      cases hdir
  rcases hone with hsame | ⟨c, m, c', m', id, hS, hT⟩
  · exact .inl hsame
  · exact .inr ⟨c, m, c', m', id, hfile hS, hfile hT⟩

/-- A renaming after directories were made does what a move is meant to do if nothing was at the
    target before. -/
theorem Paves.moved (h : Paves (Above target) d d₁)
    (hvacant : d.find? T = none) (hbeneath : ∀ j ≠ [], d₁.find? (T ++ j) = none)
    (hd : Relocated d₁ d' S T) : Moved d d' S T (Paved d₁ target) where
  vacant := hvacant
  arrived j n hn := by rw [hd.arrived, h.find?_eq hn]
  gone := hd.gone
  kept l n hn hl := by
    have hn₁ := h.find?_eq hn
    by_cases hT : T <+: l
    · obtain ⟨j, rfl⟩ := hT
      by_cases hj : j = []
      · rw [hj, List.append_nil, hvacant] at hn
        cases hn
      · rw [hbeneath j hj] at hn₁
        cases hn₁
    · rw [hd.others l hl hT, hn₁]
  added l hnone hsome := by
    have hdir {k : Location} (hk : d.find? k = none) (hk₁ : (d₁.find? k).isSome) :
        d₁.find? k = some .dir ∧ Paved d₁ target k := by
      refine ⟨?_, h.made k hk hk₁⟩
      rcases h.dirs k with hsame | ⟨-, hdir⟩
      · rw [hsame, hk] at hk₁
        cases hk₁
      · exact hdir
    by_cases hS : S <+: l
    · obtain ⟨j, rfl⟩ := hS
      rw [hd.gone] at hsome
      cases hsome
    by_cases hT : T <+: l
    · obtain ⟨j, rfl⟩ := hT
      rw [hd.arrived] at hsome ⊢
      cases hj : d.find? (S ++ j) with
      | some n => exact .inl ⟨j, rfl, by rw [hj]; rfl⟩
      | none =>
        obtain ⟨hnew, hpaved⟩ := hdir hj hsome
        exact .inr ⟨hnew, .inr ⟨j, rfl, hpaved⟩⟩
    · rw [hd.others l hS hT] at hsome ⊢
      obtain ⟨hnew, hpaved⟩ := hdir hnone hsome
      exact .inr ⟨hnew, .inl hpaved⟩

/-- Nothing but a link is at the target of a renaming to a path that leads to nothing. -/
theorem Renamed.isLink_of_missing (h : Renamed d d' src target S T)
    (hmissing : d.pathExists target = false) {m : Node} (hm : d.find? T = some m) :
    m.isLink = true := by
  -- A directory or a file is what the path leads to, and so would have been found.
  have hnone (n : Node) (hstat : d.stat .follow target = .ok n) : False := by
    simp [pathExists, hstat] at hmissing
  cases m with
  | dir =>
    obtain ⟨slash, htarget⟩ := h.target.reaches_dir hm
    exact (hnone .dir (by simp [stat, htarget .follow, hm])).elim
  | file c mode shared =>
    obtain ⟨t, c', mode', shared', ht, -, hnode⟩ := h.file c mode shared hm
    exact (hnone _ (by simp [stat, ht, hnode]; rfl)).elim
  | link target => rfl

/-- What a move did that succeeded: the entry at the place `S` that the source names is to be at the
    place `T` that the target names on the disk `d₁`, where the directories above it were made. -/
structure MoveAccount (d d₁ d' : Disk) (src target : Path) (S T : Location) : Prop where
  origin : EntryAt d src S ∧ (d.find? S).isSome
  made : outcome (makeParent target) d = (.ok (), d₁)
  destination : EntryAt d₁ target T
  /-- The move does what it is meant to do exactly if nothing was at that place. -/
  moved_iff : Moved d d' S T (Paved d₁ target) ↔ d.find? T = none
  /-- Else nothing is moved, since both are names of one file, or what was there is lost. -/
  occupied : ∀ m, d.find? T = some m →
    (OneFile d S T ∧ d' = d₁) ∨ (¬ OneFile d S T ∧ Relocated d₁ d' S T)
  /-- Where no directory had to be made, nothing but a link can have been at that place. -/
  link : d₁ = d → ∀ m, d.find? T = some m → m.isLink = true

/-- A move that succeeds on one device moves, and loses nothing if nothing was at its target. -/
theorem movePath_moves (h : Tree d) (hs : d.split = false)
    (hok : outcome (movePath src dst) d = (.ok (), d')) :
    ∃ d₁ S T, MoveAccount d d₁ d' src (d.moveTarget src dst) S T := by
  have hfree : d.moveRefusal src dst = none := by
    rw [outcome_movePath] at hok
    cases hrefusal : d.moveRefusal src dst with
    | none => rfl
    | some f =>
      rw [hrefusal] at hok
      cases hok
  obtain ⟨hsrc, -, htarget⟩ := moveRefusal_eq_none_iff.mp hfree
  rw [outcome_movePath_of_not_split hs hfree] at hok
  obtain ⟨⟨⟩, d₁, hmade, hrename⟩ := outcome_bind_eq_ok.mp hok
  rw [outcome_about_eq_ok] at hrename
  have hpaves := makeParent_paves (d.moveTarget src dst) d
  rw [hmade] at hpaves
  obtain ⟨S, T, hrenamed⟩ := rename_ok hrename
  obtain ⟨r, hr, hn⟩ : ∃ r, d.resolve .entry src = .ok r ∧ r.node.isSome := by
    unfold pathExists stat at hsrc
    cases hr : d.resolve .follow src with
    | error e => simp [hr] at hsrc
    | ok r =>
      cases hn : r.node with
      | none => simp [hr, hn] at hsrc
      | some n => exact resolve_entry_of_follow hr (by simp [hn])
  have horigin := hrenamed.source.of_extends hr (Option.isSome_iff_ne_none.mp hn) hpaves.extending
  have hcases := hrenamed.cases (hpaves.tree h)
  refine ⟨d₁, S, T, {
    origin := horigin
    made := hmade
    destination := hrenamed.target
    moved_iff := ⟨Moved.vacant, fun hvacant => ?_⟩
    occupied := fun m hm => ?_
    link := fun hsame m hm => ?_ }⟩
  · rcases hcases with ⟨hone, -⟩ | ⟨-, hbeneath, hd⟩
    · -- Something is under both names of a file.
      rcases hone.of_addsDirs hpaves.toAddsDirs with rfl | ⟨_, _, _, _, _, -, hT⟩
      · rw [hvacant] at horigin
        cases horigin.2
      · rw [hvacant] at hT
        cases hT
    · exact hpaves.moved hvacant hbeneath hd
  · rcases hcases with ⟨hone, hd⟩ | ⟨hone, -, hd⟩
    · exact .inl ⟨hone.of_addsDirs hpaves.toAddsDirs, hd⟩
    · exact .inr ⟨fun h => hone (h.refills hpaves.toAddsDirs.refills), hd⟩
  · subst hsame
    exact hrenamed.isLink_of_missing htarget hm

/-- A directory is moved with the file in it. -/
theorem movePath_moves_tree : ∃ (d d₁ d' : Disk) (S T : Location), Tree d ∧ d.split = false ∧
    outcome (movePath ⟨"/a"⟩ ⟨"/b"⟩) d = (.ok (), d') ∧ MoveAccount d d₁ d' ⟨"/a"⟩ ⟨"/b"⟩ S T := by
  open Beside in
  have htarget : disk.moveTarget ⟨"/a"⟩ ⟨"/b"⟩ = ⟨"/b"⟩ := by
    simp [moveTarget, isDir, stat, resolve_target]
  have hfree : disk.moveRefusal ⟨"/a"⟩ ⟨"/b"⟩ = none := by
    simp [moveRefusal_eq_none_iff, htarget, pathExists, isDir, stat, resolve_source, resolve_target]
  have hok : outcome (movePath ⟨"/a"⟩ ⟨"/b"⟩) disk =
      (.ok (), (disk.erase ["b"]).relocate ["a"] ["b"]) := by
    rw [outcome_movePath_of_not_split rfl hfree, htarget,
      outcome_bind_of_ok (outcome_makeParent_of_resolve (resolve_target .follow)),
      outcome_about_eq_ok, Beside.outcome_rename]
  obtain ⟨d₁, S, T, hmoves⟩ := movePath_moves tree rfl hok
  rw [htarget] at hmoves
  exact ⟨disk, d₁, _, S, T, tree, rfl, hok, hmoves⟩

/-- A link that leads nowhere is not found at the target, and is lost when a file is moved to it. -/
theorem exists_link_replaced : ∃ (d d' : Disk) (src dst : Path) (S : Location), Tree d ∧
    d.split = false ∧ outcome (movePath src dst) d = (.ok (), d') ∧ EntryAt d src S ∧
    ∃ l n, d.find? l = some n ∧ ¬ S <+: l ∧ d'.find? l ≠ some n := by
  let d : Disk := ⟨[(["a"], .file "x".toUTF8 0o644 none), (["b"], .link "nowhere")], [], false⟩
  have htree : Tree d := .of_entries (by decide) (by decide) rfl
  have hsrc (final : Final) : d.resolve final ⟨"/a"⟩ =
      .ok ⟨["a"], some (.file "x".toUTF8 0o644 none), false, false⟩ :=
    resolve_root_name (by decide) (by decide) (.inl rfl)
  have hlink : d.resolve .entry ⟨"/b"⟩ = .ok ⟨["b"], some (.link "nowhere"), false, false⟩ :=
    resolve_root_name (by decide) (by decide) (.inl rfl)
  have hnowhere : d.resolve .follow ⟨"/b"⟩ = .ok ⟨["nowhere"], none, false, false⟩ := by
    have hsegments : segments "nowhere" = ["nowhere"] := by decide
    have hslash : endsInSlash "nowhere" = false := by decide
    rw [resolve_absolute _ _ ["b"] (by decide)]
    simp (disch := decide) [walk_cons, walkAt, d, find?, lookup, hsegments, hslash, maxLinks]
    rfl
  have htarget : d.moveTarget ⟨"/a"⟩ ⟨"/b"⟩ = ⟨"/b"⟩ := by
    simp [moveTarget, isDir, stat, hnowhere]
  have hfree : d.moveRefusal ⟨"/a"⟩ ⟨"/b"⟩ = none := by
    simp [moveRefusal_eq_none_iff, htarget, pathExists, isDir, stat, hsrc, hnowhere]
  have hrename := outcome_rename rfl (hsrc .entry) hlink ⟨rfl, rfl⟩ rfl (.inr ⟨rfl, rfl⟩)
    ⟨by decide, by decide⟩ (by simp [sameFile, Node.isDir])
  have hok : outcome (movePath ⟨"/a"⟩ ⟨"/b"⟩) d = (.ok (), (d.erase ["b"]).relocate ["a"] ["b"]) := by
    rw [outcome_movePath_of_not_split rfl hfree, htarget,
      outcome_bind_of_ok (outcome_makeParent_of_resolve hnowhere), outcome_about_eq_ok, hrename]
  refine ⟨d, _, ⟨"/a"⟩, ⟨"/b"⟩, ["a"], htree, rfl, hok, ⟨_, hsrc .entry, rfl, rfl⟩, ["b"],
    .link "nowhere", rfl, by decide, by decide⟩

/-! ## Moves that fail -/

/-- The directory above a path need not be made: there is none to make, or it is there. -/
def HasParent (d : Disk) (p : Path) : Prop :=
  ∀ parent, p.parent? = some parent → isTop parent = true ∨ d.isDir parent = true

theorem outcome_makeParent_of_hasParent (h : HasParent d p) :
    outcome (makeParent p) d = (.ok (), d) := by
  unfold makeParent
  cases hparent : p.parent? with
  | none => rfl
  | some parent =>
    rw [outcome_about_eq_ok]
    rcases h parent hparent with htop | hdir
    · rw [createDirAll, if_pos htop]
      rfl
    · obtain ⟨l, r, hr, -, hn⟩ := isDir_iff.mp hdir
      exact outcome_createDirAll_of_isDir hr hn

/-- What a move left that failed. -/
structure FailedMove (d d' : Disk) (src dst : Path) : Prop where
  /-- Nothing was taken away or changed. -/
  kept : ∀ l n, d.find? l = some n → d'.find? l = some n
  /-- What is new are directories, each where a path above the target leads. -/
  added : ∀ l, d.find? l = none → (d'.find? l).isSome →
    d'.find? l = some .dir ∧ Paved d' (d.moveTarget src dst) l
  /-- Nothing is done if the source is not there, or has no name, or something is at the target. -/
  refused : d.moveRefusal src dst ≠ none → d' = d
  /-- Otherwise the directories above the target are made, as far as they can be. -/
  made : d.moveRefusal src dst = none → d' = (outcome (makeParent (d.moveTarget src dst)) d).2
  /-- Nothing is done if the directory above the target need not be made. -/
  parent : HasParent d (d.moveTarget src dst) → d' = d

/-- A move that fails on one device leaves the directories that were made above its target, and else
    everything as it was. -/
theorem movePath_fails {f : Fault} (hs : d.split = false)
    (hfail : outcome (movePath src dst) d = (.error f, d')) : FailedMove d d' src dst := by
  have hpaves := makeParent_paves (d.moveTarget src dst) d
  have hrefused : d.moveRefusal src dst ≠ none → d' = d := by
    intro hrefused
    obtain ⟨f', hf'⟩ := Option.ne_none_iff_exists'.mp hrefused
    rw [outcome_movePath, hf'] at hfail
    cases hfail
    rfl
  have hmade : d.moveRefusal src dst = none →
      d' = (outcome (makeParent (d.moveTarget src dst)) d).2 := by
    intro hfree
    rw [outcome_movePath_of_not_split hs hfree] at hfail
    rcases outcome_bind_eq_error.mp hfail with hparent | ⟨⟨⟩, d₁, hparent, hrename⟩
    · rw [hparent]
    · -- A renaming that fails changes nothing.
      obtain ⟨e, he, -⟩ := outcome_about_eq_error.mp hrename
      rw [hparent, (rename_error he).1]
  have hd : Paves (Above (d.moveTarget src dst)) d d' := by
    cases hrefusal : d.moveRefusal src dst with
    | none => exact hmade hrefusal ▸ hpaves
    | some f' =>
      rw [hrefused (by simp [hrefusal])]
      exact refl_of _ d
  exact {
    kept := fun l n hn => hd.find?_eq hn
    added := fun l hnone hsome => by
      refine ⟨?_, hd.made l hnone hsome⟩
      rcases hd.dirs l with hsame | ⟨-, hdir⟩
      · rw [hsame, hnone] at hsome
        cases hsome
      · exact hdir
    refused := hrefused
    made := hmade
    parent := fun hparent => by
      cases hrefusal : d.moveRefusal src dst with
      | none => rw [hmade hrefusal, outcome_makeParent_of_hasParent hparent]
      | some f' => exact hrefused (by simp [hrefusal]) }

namespace IntoItself

/-- A disk with a directory. -/
def disk : Disk := ⟨[(["a"], .dir)], [], false⟩

/-- A path into this directory, by way of a directory in it that is missing. -/
def inside : Path := ⟨"/a/x/y"⟩

/-- The disk when the missing directory was made. -/
def made : Disk := disk.set ["a", "x"] .dir

theorem resolve_source (final : Final) :
    disk.resolve final ⟨"/a"⟩ = .ok ⟨["a"], some .dir, false, false⟩ :=
  resolve_root_name (by decide) (by decide) trivial

theorem resolve_inside : disk.resolve .follow inside = .error (.system .noEntry) := by
  rw [resolve_absolute _ _ ["a", "x", "y"] (by decide)]
  simp (disch := decide) [walk_cons, walkAt, disk, find?, lookup]
  rfl

theorem moveRefusal_eq_none : disk.moveTarget ⟨"/a"⟩ inside = inside ∧
    disk.moveRefusal ⟨"/a"⟩ inside = none := by
  have htarget : disk.moveTarget ⟨"/a"⟩ inside = inside := by
    simp [moveTarget, isDir, stat, resolve_inside]
  refine ⟨htarget, ?_⟩
  simp [moveRefusal_eq_none_iff, htarget, pathExists, isDir, stat, resolve_source, resolve_inside]

theorem outcome_makeParent : outcome (makeParent inside) disk = (.ok (), made) := by
  have hparent : inside.parent? = some ((⟨"/a"⟩ : Path).child "x") := by decide
  have hfits : Fits ⟨"/a"⟩ "x" := ⟨by decide, by decide, by decide⟩
  rw [makeParent, hparent]
  dsimp only
  rw [outcome_about_eq_ok, outcome_createDirAll_of_none ⟨_, resolve_source .follow, rfl, rfl⟩
    ⟨⟨by decide, by decide⟩, by decide⟩ hfits rfl]
  rfl

theorem outcome_rename :
    outcome (rename ⟨"/a"⟩ inside) made = (.error (.system .invalid), made) := by
  have hs : made.resolve .entry ⟨"/a"⟩ = .ok ⟨["a"], some .dir, false, false⟩ :=
    resolve_root_name (by decide) (by decide) trivial
  have ht : made.resolve .entry inside = .ok ⟨["a", "x", "y"], none, false, false⟩ := by
    rw [resolve_absolute _ _ ["a", "x", "y"] (by decide)]
    simp (disch := decide) [walk_cons, walkAt, made, disk, find?]
    rfl
  unfold rename
  rw [outcome_bind_of_ok (outcome_get _), if_neg (by decide), outcome_bind, outcome_find, hs]
  dsimp only
  rw [outcome_bind, outcome_find, ht]
  rfl

/-- The move fails when the directory was made. -/
theorem outcome_movePath :
    outcome (movePath ⟨"/a"⟩ inside) disk = (.error (.io ⟨"/a"⟩ (.system .invalid)), made) := by
  obtain ⟨htarget, hfree⟩ := moveRefusal_eq_none
  rw [outcome_movePath_of_not_split rfl hfree, htarget, outcome_bind_of_ok outcome_makeParent,
    outcome_about, outcome_rename]
  rfl

end IntoItself

/-- A directory that is moved into itself leaves what was made. -/
theorem movePath_fails_into : ∃ (d d' : Disk) (f : Fault), d.split = false ∧
    outcome (movePath ⟨"/a"⟩ ⟨"/a/x/y"⟩) d = (.error f, d') ∧
      FailedMove d d' ⟨"/a"⟩ ⟨"/a/x/y"⟩ :=
  ⟨IntoItself.disk, IntoItself.made, _, rfl, IntoItself.outcome_movePath,
    movePath_fails rfl IntoItself.outcome_movePath⟩

/-- A move that fails may leave a directory where nothing was. -/
theorem exists_parent_left : ∃ (d d' : Disk) (src dst : Path) (f : Fault), Tree d ∧
    d.split = false ∧ outcome (movePath src dst) d = (.error f, d') ∧
      ∃ l, d.find? l = none ∧ d'.find? l = some .dir :=
  ⟨IntoItself.disk, IntoItself.made, ⟨"/a"⟩, IntoItself.inside, _,
    .of_entries (by decide) (by decide) rfl, rfl, IntoItself.outcome_movePath, ["a", "x"], rfl, rfl⟩

end GameInstaller.Disk
