import GameInstaller.Disk.Transfer
import GameInstaller.Proofs.Disk.Directories

/-!
# Moving and copying

A copy reads the disk while it changes it.  As long as it makes nothing new it finds what was there
before, so up to a collision that leaves no new entry it is a list of works that the disk before it
tells (`copyPlan`), and so is a move (`moveWorks`).

## Key results

- `copyTree_alike_iff`: when a copy that collides leaves the disk as it was
- `movePath_alike_iff`: when a move that collides does
- `createDir_alike_iff`: when making a directory that collides does
-/

namespace GameInstaller.Disk

variable {α β : Type}

/-! ## Failures with their paths -/

theorem outcome_about (p : Path) (x : Io α) (d : Disk) :
    outcome (about p x) d = ((outcome x d).1.mapError (Fault.ofIo p), (outcome x d).2) := by
  unfold about
  rw [outcome_bind_of_ok (outcome_attempt _ _)]
  cases (outcome x d).1 <;> rfl

theorem outcome_about_eq_ok {p : Path} {x : Io α} {d d' : Disk} {a : α} :
    outcome (about p x) d = (.ok a, d') ↔ outcome x d = (.ok a, d') := by
  rw [outcome_about]
  rcases outcome x d with ⟨r, d₁⟩
  cases r with
  | ok b => constructor <;> (intro h; cases h; rfl)
  | error e => constructor <;> nofun

theorem outcome_about_eq_error {p : Path} {x : Io α} {d d' : Disk} {f : Fault} :
    outcome (about p x) d = (.error f, d') ↔
      ∃ e, outcome x d = (.error e, d') ∧ Fault.ofIo p e = f := by
  rw [outcome_about]
  rcases outcome x d with ⟨r, d₁⟩
  cases r with
  | ok a =>
    constructor
    · nofun
    · rintro ⟨e, h, -⟩
      cases h
  | error e =>
    constructor
    · intro h
      cases h
      exact ⟨e, rfl, rfl⟩
    · rintro ⟨e', h, rfl⟩
      cases h
      rfl

theorem Quiet.about {x : Io α} (p : Path) (hx : Quiet x) : Quiet (about p x) := fun d => by
  rw [outcome_about]
  exact hx d

theorem Keeping.about {x : Io α} (p : Path) (hx : Keeping x) : Keeping (about p x) := fun d => by
  rw [outcome_about]
  exact hx d

theorem Building.about {x : Io α} (p : Path) (hx : Building x) : Building (about p x) where
  keeps := hx.keeps.about p
  makes d := by
    rw [outcome_about]
    exact hx.makes d
  grows d := by
    rw [outcome_about]
    exact hx.grows d
  adds d := by
    rw [outcome_about]
    exact hx.adds d

theorem Adding.about {x : Io α} (p : Path) (hx : Adding x) : Adding (about p x) where
  grows d := by
    rw [outcome_about]
    exact hx.grows d
  adds d := by
    rw [outcome_about]
    exact hx.adds d

theorem Unopposed.about {x : Io α} (p : Path) (hx : Unopposed x) : Unopposed (about p x) := by
  intro d f d' h
  obtain ⟨e, he, rfl⟩ := outcome_about_eq_error.mp h
  rw [isCollision_ofIo]
  exact hx he

theorem Clear.about {x : Io α} (p : Path) (hx : Clear x) : Clear (about p x) :=
  ⟨hx.keeps.about p, Unopposed.about p hx.clear⟩

theorem Tidy.about {x : Io α} (p : Path) (hx : Tidy x) : Tidy (about p x) where
  keeps := hx.keeps.about p
  tidy h hc := by
    obtain ⟨e, he, rfl⟩ := outcome_about_eq_error.mp h
    exact hx.tidy he (isCollision_ofIo.mp hc)

/-! ## The works of a copy -/

theorem makeParent_building (p : Path) : Building (makeParent p) := by
  unfold makeParent
  split
  · exact (createDirAll_building _).about _
  · exact (Quiet.pure _).building

theorem copyFile_clear (src dst : Path) : Clear (copyFile src dst) := by
  refine (find_clear _ _).bind fun s => ?_
  split
  · exact fail_clear (by decide)
  · exact .throw (by decide)
  · exact fail_clear (by decide)
  · refine (update_adds _ _ _).clear.bind fun _ => (readBytes_clear _).bind fun _ => ?_
    exact (update_adds _ _ _).clear.bind fun _ => (chmod_adds _ _).clear

theorem copyFile_adding (src dst : Path) : Adding (copyFile src dst) := by
  refine (Quiet.find _ _).adding.bind fun s => ?_
  split
  · exact (Quiet.fail _).adding
  · exact (Quiet.throw _).adding
  · exact (Quiet.fail _).adding
  · refine (update_adds _ _ _).adding.bind fun _ => (readBytes_quiet _).adding.bind fun _ => ?_
    exact (update_adds _ _ _).adding.bind fun _ => (chmod_adds _ _).adding

/-- The names in the directory that a path leads to. -/
def namesIn (d : Disk) (p : Path) : List String :=
  match d.resolve .follow p with
  | .ok r => d.children r.location
  | .error _ => []

theorem namesIn_outline (d : Disk) (p : Path) : d.outline.namesIn p = d.namesIn p := by
  unfold namesIn
  rw [resolve_outline]
  cases d.resolve .follow p with
  | ok r => exact children_outline d r.location
  | error e => rfl

/-- What a copy does, one thing after the other, while the disk keeps its outline. -/
def copyPlan (d : Disk) : Nat → Path → Path → List (Fs Unit)
  | 0, src, _ => [throw (.ofIo src (.system .nameTooLong))]
  | depth + 1, src, dst =>
    if d.isDir src then
      about dst (createDirAll dst) ::
        (d.namesIn src).flatMap fun name => copyPlan d depth (src.child name) (dst.child name)
    else [makeParent dst, about src (copyFile src dst)]

/-- A work of a copy adds only, and is tidy. -/
theorem copyPlan_works (d : Disk) {depth : Nat} {src dst : Path} {work : Fs Unit}
    (hw : work ∈ copyPlan d depth src dst) : Adding work ∧ Tidy work := by
  induction depth generalizing src dst with
  | zero =>
    obtain rfl := List.mem_singleton.mp hw
    exact ⟨(Quiet.throw _).adding, (Quiet.throw _).preparing.tidy⟩
  | succ depth ih =>
    unfold copyPlan at hw
    split at hw
    · rcases List.mem_cons.mp hw with rfl | hw
      · have hmake := (createDirAll_building dst).about dst
        exact ⟨hmake.toAdding, hmake.tidy⟩
      · obtain ⟨name, -, hw⟩ := List.mem_flatMap.mp hw
        exact ih hw
    · rcases List.mem_cons.mp hw with rfl | hw
      · exact ⟨(makeParent_building dst).toAdding, (makeParent_building dst).tidy⟩
      · obtain rfl := List.mem_singleton.mp hw
        exact ⟨(copyFile_adding _ _).about _, ((copyFile_clear _ _).about _).tidy⟩

theorem copyInto_adding (depth : Nat) (src dst : Path) : Adding (copyInto depth src dst) := by
  induction depth generalizing src dst with
  | zero => exact (Quiet.throw _).adding
  | succ depth ih =>
    refine Quiet.get.adding.bind fun d => ?_
    split
    · refine ((createDirAll_building _).about _).toAdding.bind fun _ => ?_
      refine ((Quiet.find _ _).about _).adding.bind fun _ => Quiet.get.adding.bind fun _ => ?_
      exact .forM fun name _ => ih _ _
    · exact (makeParent_building _).toAdding.bind fun _ => (copyFile_adding _ _).about _

theorem copyInto_keeping (depth : Nat) (src dst : Path) : Keeping (copyInto depth src dst) := by
  induction depth generalizing src dst with
  | zero => exact (Quiet.throw _).keeping
  | succ depth ih =>
    refine Quiet.get.keeping.bind fun d => ?_
    split
    · refine ((createDirAll_building _).about _).keeps.bind fun _ => ?_
      refine ((Quiet.find _ _).about _).keeping.bind fun _ => Quiet.get.keeping.bind fun _ => ?_
      exact .forM fun name _ => ih _ _
    · exact (makeParent_building _).keeps.bind fun _ => ((copyFile_clear _ _).about _).keeps

/-! ## Copying by the plan -/

section Parallel

variable {ε : Type} {d₀ : Disk}

/-- On a disk with this outline two calls do the same and leave the outline, or both make an
    entry. -/
def Parallel (d₀ : Disk) (x y : Call ε PUnit) : Prop :=
  ∀ d : Disk, d.outline = d₀.outline →
    (outcome x d = outcome y d ∧ (outcome y d).2.outline = d₀.outline) ∨
      (NewEntry d₀ (outcome x d).2 ∧ NewEntry d₀ (outcome y d).2)

theorem Parallel.refl {x : Call ε PUnit} (hx : Adding x) : Parallel d₀ x x := by
  intro d hd
  rcases hx.adds d with hsame | hnew
  · exact .inl ⟨rfl, hsame.trans hd⟩
  · have := newEntry_of_outline hd hnew
    exact .inr ⟨this, this⟩

/-- A new entry is still there after calls that add only. -/
theorem newEntry_bind {x : Call ε α} {k : α → Call ε β} (hk : ∀ a, Adding (k a)) {d : Disk}
    (hx : NewEntry d₀ (outcome x d).2) : NewEntry d₀ (outcome (x >>= k) d).2 := by
  rcases h : outcome x d with ⟨r, d₁⟩
  rw [h] at hx
  cases r with
  | ok a =>
    rw [outcome_bind_of_ok h]
    exact hx.keep ((hk a).grows d₁)
  | error e => rwa [outcome_bind_of_error h]

theorem Parallel.bind {x y : Call ε PUnit} {k l : PUnit → Call ε PUnit} (hxy : Parallel d₀ x y)
    (hkl : Parallel d₀ (k ⟨⟩) (l ⟨⟩)) (hk : Adding (k ⟨⟩)) (hl : Adding (l ⟨⟩)) :
    Parallel d₀ (x >>= k) (y >>= l) := by
  intro d hd
  rcases hxy d hd with ⟨hsame, hout⟩ | ⟨hx, hy⟩
  · rcases h : outcome y d with ⟨r, d₁⟩
    rw [h] at hsame hout
    cases r with
    | ok u =>
      rw [outcome_bind_of_ok hsame, outcome_bind_of_ok h]
      exact hkl d₁ hout
    | error e =>
      rw [outcome_bind_of_error hsame, outcome_bind_of_error h]
      exact .inl ⟨rfl, hout⟩
  · exact .inr ⟨newEntry_bind (fun _ => hk) hx, newEntry_bind (fun _ => hl) hy⟩

theorem Parallel.forM {f : α → Call ε PUnit} {g : α → List (Call ε PUnit)}
    (hfg : ∀ a, Parallel d₀ (f a) ((g a).forM id)) (hf : ∀ a, Adding (f a))
    (hg : ∀ a, ∀ work ∈ g a, Adding work) (xs : List α) :
    Parallel d₀ (xs.forM f) ((xs.flatMap g).forM id) := by
  induction xs with
  | nil => exact .refl (Quiet.pure _).adding
  | cons x xs ih =>
    have hbind : Parallel d₀ (f x >>= fun _ => xs.forM f)
        ((g x).forM id >>= fun _ => (xs.flatMap g).forM id) := by
      refine (hfg x).bind ih (.forM fun y _ => hf y) (.forM fun work hw => ?_)
      obtain ⟨y, -, hw⟩ := List.mem_flatMap.mp hw
      exact hg y work hw
    intro d hd
    rw [List.flatMap_cons, outcome_forM_append, outcome_forM_cons]
    exact hbind d hd

/-- Calls that go on as their works do collide as these do, where no entry is made. -/
theorem Parallel.follows [Collides ε] {x : Call ε PUnit} {works : List (Call ε PUnit)}
    (h : Parallel d₀ x (works.forM id)) : Follows d₀ x works := by
  intro e d' _ hnew
  rcases h d₀ rfl with ⟨hsame, -⟩ | ⟨hx, hworks⟩
  · rw [hsame]
  · constructor
    · intro he
      rw [he] at hx
      exact absurd hx hnew
    · intro he
      rw [he] at hworks
      exact absurd hworks hnew

end Parallel

/-- The names in a directory are read as they are. -/
theorem outcome_names {β : Type} {src : Path} {d : Disk} (hdir : d.isDir src = true)
    (f : List String → Fs β) :
    outcome (do let r ← about src (find .follow src); f ((← get).children r.location)) d =
      outcome (f (d.namesIn src)) d := by
  unfold isDir stat at hdir
  unfold namesIn
  cases hr : d.resolve .follow src with
  | error e =>
    rw [hr] at hdir
    cases hdir
  | ok r =>
    have hfind : outcome (about src (find .follow src)) d = (.ok r, d) := by
      rw [outcome_about, outcome_find, hr]
      rfl
    rw [outcome_bind_of_ok hfind, outcome_bind_of_ok (outcome_get d)]

/-- As long as a copy makes nothing new it goes by the plan. -/
theorem copyInto_parallel (d₀ : Disk) (depth : Nat) (src dst : Path) :
    Parallel d₀ (copyInto depth src dst) ((copyPlan d₀ depth src dst).forM id) := by
  induction depth generalizing src dst with
  | zero =>
    intro d hd
    exact .inl ⟨rfl, hd⟩
  | succ depth ih =>
    intro d hd
    have hisDir (d : Disk) (hd : d.outline = d₀.outline) : d.isDir src = d₀.isDir src := by
      rw [← isDir_outline, hd, isDir_outline]
    unfold copyInto copyPlan
    rw [outcome_bind_of_ok (outcome_get d), hisDir d hd]
    cases hdir : d₀.isDir src with
    | false =>
      simp only [Bool.false_eq_true, ↓reduceIte]
      have hcopy := (copyFile_adding src dst).about src
      have hfile : Parallel d₀ (about src (copyFile src dst))
          ([about src (copyFile src dst)].forM id) := by
        intro d hd
        rw [outcome_forM_singleton]
        exact Parallel.refl hcopy d hd
      refine (Parallel.refl (makeParent_building dst).toAdding).bind hfile hcopy ?_ d hd
      refine .forM fun work hw => ?_
      obtain rfl := List.mem_singleton.mp hw
      exact hcopy
    | true =>
      simp only [↓reduceIte]
      have hplan (name : String) : ∀ work ∈ copyPlan d₀ depth (src.child name) (dst.child name),
          Adding work := fun work hw => (copyPlan_works d₀ hw).1
      -- Making the target directory leaves the outline, which tells the names to copy, or shows.
      refine (Parallel.refl ((createDirAll_building dst).about dst).toAdding).bind ?_ ?_ ?_ d hd
      · intro d hd
        rw [outcome_names ((hisDir d hd).trans hdir) fun names =>
          names.forM fun name => copyInto depth (src.child name) (dst.child name)]
        rw [← namesIn_outline, hd, namesIn_outline]
        exact Parallel.forM (fun name => ih _ _) (fun name => copyInto_adding _ _ _) hplan _ d hd
      · refine ((Quiet.find _ _).about _).adding.bind fun _ => Quiet.get.adding.bind fun _ => ?_
        exact .forM fun name _ => copyInto_adding _ _ _
      · refine .forM fun work hw => ?_
        obtain ⟨name, -, hw⟩ := List.mem_flatMap.mp hw
        exact hplan name work hw

/-! ## Operations -/

/-- Making a directory with its parents leaves no trace of a collision exactly if the path is
    blocked. -/
theorem untouched_createDirAll (p : Path) (d : Disk) :
    Untouched [about p (createDirAll p)] d ↔ d.blocked p = true := by
  rw [untouched_singleton, ← createDirAll_collides_iff]
  constructor
  · rintro ⟨f, hc, h⟩
    obtain ⟨e, he, rfl⟩ := outcome_about_eq_error.mp h
    exact ⟨e, isCollision_ofIo.mp hc, he⟩
  · rintro ⟨e, hc, he⟩
    exact ⟨_, isCollision_ofIo.mpr hc, outcome_about_eq_error.mpr ⟨e, he, rfl⟩⟩

/-- When making a directory collides, the disk is as it was exactly if the path was there or is
    blocked. -/
theorem createDir_alike_iff {p : Path} {d d' : Disk} {f : Fault}
    (h : outcome (createDir p) d = (.error f, d')) (hc : isCollision f) :
    Alike d d' ↔ d.pathExists p = true ∨ d.blocked p = true := by
  unfold createDir at h
  rw [outcome_bind_of_ok (outcome_get d)] at h
  cases hp : d.pathExists p with
  | true =>
    rw [hp] at h
    cases h
    simp [Alike.refl]
  | false =>
    rw [hp] at h
    have htidy : ∀ work ∈ [about p (createDirAll p)], Tidy work := by
      simpa using ((createDirAll_building p).about p).tidy
    have hworks := alike_iff_untouched (Follows.refl d _) htidy h hc
    simpa [untouched_createDirAll] using hworks

/-- Where a copy goes: a file goes into a directory. -/
def copyTarget (d : Disk) (src dst : Path) : Path :=
  if d.isFile src && d.isDir dst then
    match src.fileName? with
    | some name => dst.child name
    | none => dst
  else dst

/-- When a copy collides, the disk is as it was exactly if no work before the collision changed it
    and the colliding one did not. -/
theorem copyTree_alike_iff {src dst : Path} {d d' : Disk} {f : Fault}
    (h : outcome (copyTree src dst) d = (.error f, d')) (hc : isCollision f) :
    Alike d d' ↔ Untouched (d.copyPlan pathLimit src (d.copyTarget src dst)) d := by
  unfold copyTree at h
  rw [outcome_bind_of_ok (outcome_get d)] at h
  cases hp : d.pathExists src with
  | false =>
    rw [hp] at h
    cases h
    cases hc
  | true =>
    rw [hp] at h
    exact alike_iff_untouched (copyInto_parallel d _ _ _).follows
      (fun work hw => (copyPlan_works d hw).2) h hc

/-- Where a move goes: into a directory. -/
def moveTarget (d : Disk) (src dst : Path) : Path :=
  if d.isDir dst then
    match src.fileName? with
    | some name => dst.child name
    | none => dst
  else dst

/-- What a move does that can collide: making the directory above the target, and across devices
    what a copy does. -/
def moveWorks (d : Disk) (src target : Path) : List (Fs Unit) :=
  makeParent target :: if d.split then d.copyPlan pathLimit src target else []

/-- Rename, or across devices copy and take away. -/
def carry (src target : Path) : Fs Unit := do
  match ← attempt (rename src target) with
  | .ok () => pure ()
  | .error e =>
    if e.kind = .crossesDevices then
      copyRecursive src target
      removePath src
    else throw (.ofIo src e)

theorem removePath_unopposed (p : Path) : Unopposed (removePath p) := by
  refine Unopposed.bind (fun h => by cases h) fun d => ?_
  split
  · exact Unopposed.about p (removeDirAll_unopposed p)
  · exact Unopposed.about p (unlink_clear p).clear

/-- A renaming that fails changes nothing, and is told apart by the devices. -/
theorem rename_error {src dst : Path} {d d' : Disk} {e : IoError}
    (h : outcome (rename src dst) d = (.error e, d')) :
    d' = d ∧ ¬ isCollision e ∧ (e.kind = .crossesDevices ↔ d.split = true) := by
  cases hs : d.split with
  | true =>
    rw [rename_of_split src dst hs] at h
    cases h
    exact ⟨rfl, by decide, by decide⟩
  | false =>
    obtain ⟨hd, hclear, hdevice⟩ := rename_refuses src dst hs e d' h
    exact ⟨hd, hclear, by simp [hdevice]⟩

/-- A collision after the renaming is one of the copy. -/
theorem carry_collides_iff {src target : Path} {d d' : Disk} {f : Fault} (hc : isCollision f) :
    outcome (carry src target) d = (.error f, d') ↔
      d.split = true ∧ outcome (copyRecursive src target) d = (.error f, d') := by
  unfold carry
  rw [outcome_bind_of_ok (outcome_attempt _ _)]
  rcases h : outcome (rename src target) d with ⟨r, d₁⟩
  cases r with
  | ok u =>
    constructor
    · intro he
      cases he
    · rintro ⟨hs, -⟩
      rw [rename_of_split src target hs] at h
      cases h
  | error e =>
    obtain ⟨rfl, hclear, hdevice⟩ := rename_error h
    dsimp only
    -- On one device a failed renaming is the end.
    by_cases hs : d₁.split = true
    · rw [if_pos (hdevice.mpr hs), outcome_bind_eq_error]
      simp only [hs, true_and, or_iff_left_iff_imp]
      -- Taking away the source does not collide.
      rintro ⟨u, d₂, -, he⟩
      exact absurd hc (removePath_unopposed src he)
    · rw [if_neg (mt hdevice.mp hs), outcome_throw]
      constructor
      · intro he
        cases he
        exact absurd (isCollision_ofIo.mp hc) hclear
      · rintro ⟨hs', -⟩
        exact absurd hs' hs

theorem carry_keepsDirs {src target : Path} {d d' : Disk} {f : Fault}
    (h : outcome (carry src target) d = (.error f, d')) (hc : isCollision f) : KeepsDirs d d' := by
  have hkeeps := copyInto_keeping pathLimit src target d
  rw [show copyInto pathLimit src target = copyRecursive src target from rfl,
    ((carry_collides_iff hc).mp h).2] at hkeeps
  exact hkeeps

theorem carry_follows (d : Disk) (src target : Path) :
    Follows d (carry src target) (if d.split then d.copyPlan pathLimit src target else []) := by
  intro f d' hc hnew
  rw [carry_collides_iff hc]
  cases hs : d.split with
  | true =>
    simp only [true_and, ↓reduceIte]
    exact (copyInto_parallel d _ _ _).follows _ _ hc hnew
  | false =>
    simp only [Bool.false_eq_true, false_and, ↓reduceIte, false_iff]
    nofun

/-- Why a move is refused before anything is done: there is nothing to move, or it has no name to be
    given in a directory, or something is at the target. -/
def moveRefusal (d : Disk) (src dst : Path) : Option Fault :=
  if !d.pathExists src || (d.isDir dst && src.fileName?.isNone) then some (.notFound src)
  else if d.pathExists (d.moveTarget src dst) then some (.alreadyExists (d.moveTarget src dst))
  else none

/-- A move is refused, or it makes the directory above its target and carries. -/
theorem outcome_movePath (src dst : Path) (d : Disk) :
    outcome (movePath src dst) d = match d.moveRefusal src dst with
      | some f => (.error f, d)
      | none => outcome
          (makeParent (d.moveTarget src dst) >>= fun _ => carry src (d.moveTarget src dst)) d := by
  -- However the target comes about, the move goes on in the same way.
  have hgo (target : Path) : outcome (do
      if d.pathExists target then throw (.alreadyExists target)
      makeParent target
      carry src target) d =
        match if d.pathExists target then some (Fault.alreadyExists target) else none with
        | some f => (.error f, d)
        | none => outcome (makeParent target >>= fun _ => carry src target) d := by
    cases d.pathExists target <;> rfl
  unfold movePath moveRefusal moveTarget
  rw [outcome_bind_of_ok (outcome_get d)]
  cases hsrc : d.pathExists src with
  | false => rfl
  | true =>
    cases hdir : d.isDir dst with
    | false => exact hgo dst
    | true =>
      cases hname : src.fileName? with
      | none => rfl
      | some name =>
        simp only [Bool.not_true, Bool.false_eq_true, ↓reduceIte, pure_bind, Option.isNone_some,
          Bool.and_false, Bool.or_self]
        exact hgo (dst.child name)

/-- A move that fails with nothing at its target makes the directory above it and carries. -/
theorem movePath_carries {src dst : Path} {d d' : Disk} {f : Fault}
    (h : outcome (movePath src dst) d = (.error f, d')) (hc : isCollision f) :
    (d.pathExists (d.moveTarget src dst) = true ∧ d' = d) ∨
      (d.pathExists (d.moveTarget src dst) = false ∧
        outcome (makeParent (d.moveTarget src dst) >>= fun _ => carry src (d.moveTarget src dst)) d =
          (.error f, d')) := by
  rw [outcome_movePath] at h
  unfold moveRefusal at h
  split at h
  · rename_i hrefused
    cases h
    split at hrefused
    · cases hrefused
      cases hc
    · exact .inl ⟨by simp_all, rfl⟩
  · rename_i hrefused
    split at hrefused
    · cases hrefused
    · exact .inr ⟨by simpa using hrefused, h⟩

/-- When a move collides, the disk is as it was exactly if its target was there, or no work before
    the collision changed it and the colliding one did not. -/
theorem movePath_alike_iff {src dst : Path} {d d' : Disk} {f : Fault}
    (h : outcome (movePath src dst) d = (.error f, d')) (hc : isCollision f) :
    Alike d d' ↔ d.pathExists (d.moveTarget src dst) = true ∨
      Untouched (d.moveWorks src (d.moveTarget src dst)) d := by
  rcases movePath_carries h hc with ⟨hp, rfl⟩ | ⟨hp, h⟩
  · simp [hp, Alike.refl]
  -- Nothing was at the target, so the move is its works.
  · have hplan : ∀ work ∈ (if d.split then d.copyPlan pathLimit src (d.moveTarget src dst) else []),
        Tidy work := by
      intro work hw
      split at hw
      · exact (copyPlan_works d hw).2
      · cases hw
    have hmake := makeParent_building (d.moveTarget src dst)
    have hfollows := Follows.cons hmake.toPreparing (carry_follows d src (d.moveTarget src dst))
      (fun work hw => (hplan work hw).keeps) carry_keepsDirs
    have hworks := alike_iff_untouched hfollows
      (List.forall_mem_cons.mpr ⟨hmake.tidy, hplan⟩) h hc
    simpa [hp, moveWorks] using hworks

/-- On one device a move leaves no trace of a collision above its target exactly if the directory
    above it is blocked. -/
theorem untouched_moveWorks {d : Disk} (hd : d.split = false) (src target : Path) :
    Untouched (d.moveWorks src target) d ↔
      ∃ parent, target.parent? = some parent ∧ d.blocked parent = true := by
  unfold moveWorks makeParent
  rw [hd]
  cases target.parent? with
  | some parent => simpa using untouched_createDirAll parent d
  | none =>
    constructor
    · intro h
      obtain ⟨e, -, he⟩ := untouched_singleton.mp h
      cases he
    · rintro ⟨parent, h, -⟩
      cases h

end GameInstaller.Disk
