import GameInstaller.Proofs.Disk.Resolve
import GameInstaller.Proofs.Disk.Works

/-!
# What the calls do

Every call on a disk, by what it does and by how it fails.  Only the calls that make something
collide, and they do so before they change anything.
-/

namespace GameInstaller.Disk

variable {ε α β : Type}

/-! ## Calls that add -/

/-- A call that fails without a collision, leaving the disk as it was, or adds to the disk. -/
def Adds [Collides ε] (x : Call ε α) : Prop :=
  ∀ d, (∃ e, ¬ isCollision e ∧ outcome x d = (.error e, d)) ∨
    ∃ a d', Addition d d' ∧ outcome x d = (.ok a, d')

theorem Adds.clear [Collides ε] {x : Call ε α} (hx : Adds x) : Clear x where
  keeps d := by
    rcases hx d with ⟨e, -, h⟩ | ⟨a, d', hadd, h⟩
    · rw [h]
      exact .refl
    · rw [h]
      exact hadd.keepsDirs
  clear {d e d'} he := by
    rcases hx d with ⟨e₁, hclear, h⟩ | ⟨a, d₁, -, h⟩
    · rw [he] at h
      cases h
      exact hclear
    · rw [he] at h
      cases h

/-- A call under which nothing goes away, and which leaves the outline or makes an entry. -/
structure Adding (x : Call ε α) : Prop where
  grows : ∀ d, Grows d (outcome x d).2
  adds : ∀ d, (outcome x d).2.outline = d.outline ∨ NewEntry d (outcome x d).2

theorem Adds.adding [Collides ε] {x : Call ε α} (hx : Adds x) : Adding x where
  grows d := by
    rcases hx d with ⟨e, -, h⟩ | ⟨a, d', hadd, h⟩
    · rw [h]
      exact .refl
    · rw [h]
      exact hadd.grows
  adds d := by
    rcases hx d with ⟨e, -, h⟩ | ⟨a, d', hadd, h⟩
    · rw [h]
      exact .inl rfl
    · rw [h]
      exact hadd.outline_or_newEntry

theorem Quiet.adding {x : Call ε α} (hx : Quiet x) : Adding x where
  grows d := by
    rw [hx d]
    exact .refl
  adds d := .inl (by rw [hx d])

theorem Adding.bind {x : Call ε α} {f : α → Call ε β} (hx : Adding x) (hf : ∀ a, Adding (f a)) :
    Adding (x >>= f) where
  grows d := by
    have hd := hx.grows d
    rcases h : outcome x d with ⟨r, d'⟩
    rw [h] at hd
    cases r with
    | error e => rwa [outcome_bind_of_error h]
    | ok a =>
      rw [outcome_bind_of_ok h]
      exact hd.trans ((hf a).grows d')
  adds d := by
    have hd := hx.adds d
    rcases h : outcome x d with ⟨r, d'⟩
    rw [h] at hd
    cases r with
    | error e => rwa [outcome_bind_of_error h]
    | ok a =>
      rw [outcome_bind_of_ok h]
      rcases hd with hsame | hnew
      · rcases (hf a).adds d' with hsame' | hnew'
        · exact .inl (hsame'.trans hsame)
        · exact .inr (newEntry_of_outline hsame hnew')
      · exact .inr (hnew.keep ((hf a).grows d'))

theorem Adding.attempt {ε' : Type} {x : Call ε α} (hx : Adding x) :
    Adding (attempt x : Call ε' (Except ε α)) := ⟨hx.grows, hx.adds⟩

theorem Adding.forM {f : α → Call ε PUnit} {xs : List α} (hf : ∀ x ∈ xs, Adding (f x)) :
    Adding (xs.forM f) := by
  induction xs with
  | nil => exact (Quiet.pure _).adding
  | cons x xs ih =>
    exact (hf x List.mem_cons_self).bind fun _ => ih fun y hy => hf y (List.mem_cons_of_mem _ hy)

/-! ## Calls that read -/

theorem find_clear (final : Final) (p : Path) : Clear (find final p) where
  keeps := (Quiet.find final p).keeping
  clear {d e d'} h := by
    rw [outcome_find] at h
    exact (resolve_error d final (Prod.mk.inj h).1).1

theorem fail_clear {e : Errno} (he : e ≠ .fileExists) : Clear (fail e : Io α) := by
  refine .throw ?_
  change e.kind ≠ _
  cases e <;> first | exact absurd rfl he | decide

/-- What opening a file gives can be read, or is a directory. -/
theorem openStream_failure {p : Path} {d d' : Disk} {s : ByteStream}
    (h : outcome (openStream p) d = (.ok s, d')) :
    s.failure = none ∨ s.failure = some (.system .isDirectory) := by
  unfold openStream at h
  rw [outcome_bind, outcome_find] at h
  cases hr : d.resolve .follow p with
  | error e =>
    rw [hr] at h
    cases h
  | ok r =>
    rw [hr] at h
    dsimp only at h
    split at h
    · cases h
      exact .inl rfl
    · cases h
      exact .inr rfl
    · cases h

theorem openStream_quiet (p : Path) : Quiet (openStream p) := by
  refine (Quiet.find _ _).bind fun r => ?_
  split
  · exact .pure _
  · exact .pure _
  · exact .fail _

theorem openStream_clear (p : Path) : Clear (openStream p) := by
  refine (find_clear _ _).bind fun r => ?_
  split
  · exact .pure _
  · exact .pure _
  · exact fail_clear (by decide)

theorem readBytes_quiet (p : Path) : Quiet (readBytes p) := by
  refine (openStream_quiet p).bind fun s => ?_
  split
  · exact .pure _
  · exact .throw _

theorem readText_quiet (p : Path) : Quiet (readText p) := by
  refine (readBytes_quiet p).bind fun content => ?_
  split
  · exact .pure _
  · exact .throw _

theorem readBytes_clear (p : Path) : Clear (readBytes p) where
  keeps := (readBytes_quiet p).keeping
  clear {d e d'} h := by
    rcases outcome_bind_eq_error.mp h with hs | ⟨s, d₁, hs, hread⟩
    · exact (openStream_clear p).clear hs
    -- What was opened is a file, which is read to its end, or a directory.
    · have hfailure := openStream_failure hs
      unfold ByteStream.readAll at hread
      rcases hfailure with hnone | hsome
      · rw [hnone] at hread
        cases hread
      · rw [hsome] at hread
        cases hread
        decide

/-! ## Calls that write -/

theorem update_adds (p : Path) (change : ByteArray → ByteArray) (mode : Nat) :
    Adds (update p change mode) := by
  intro d
  unfold update
  rw [outcome_bind, outcome_find]
  cases hr : d.resolve .follow p with
  | error e => exact .inl ⟨e, (resolve_error d _ hr).1, rfl⟩
  | ok r =>
    dsimp only
    split
    · rename_i content mode' shared hfile
      obtain ⟨-, hl, hfind⟩ := resolve_entry d _ hr (by simp [hfile])
      exact .inr ⟨(), _, .content hl (hfind.trans hfile) _ _, rfl⟩
    · exact .inl ⟨.system .isDirectory, by decide, rfl⟩
    · rename_i hnone
      split
      · exact .inl ⟨.system .isDirectory, by decide, rfl⟩
      · obtain ⟨-, hl, hfind⟩ := resolve_entry d _ hr (by simp [hnone])
        exact .inr ⟨(), _, .entry hl (hfind.trans hnone) _, rfl⟩

theorem writeBytes_adds (p : Path) (content : ByteArray) : Adds (writeBytes p content) :=
  update_adds _ _ _

theorem chmod_adds (p : Path) (mode : Nat) : Adds (chmod p mode) := by
  intro d
  unfold chmod
  rw [outcome_bind, outcome_find]
  cases hr : d.resolve .follow p with
  | error e => exact .inl ⟨e, (resolve_error d _ hr).1, rfl⟩
  | ok r =>
    dsimp only
    split
    · rename_i content mode' shared hfile
      obtain ⟨-, hl, hfind⟩ := resolve_entry d _ hr (by simp [hfile])
      exact .inr ⟨(), _, .content hl (hfind.trans hfile) _ _, rfl⟩
    · exact .inr ⟨(), _, .same, rfl⟩
    · exact .inl ⟨.system .noEntry, by decide, rfl⟩

/-! ## Calls that make something new -/

/-- A call that fails and leaves the disk as it was, colliding only with what is at `p`, or adds to
    the disk. -/
def MakesAt (p : Path) (x : Io Unit) : Prop :=
  ∀ d, (∃ e, outcome x d = (.error e, d) ∧
      (isCollision e → ∃ r, d.resolve .entry p = .ok r ∧ r.node ≠ none)) ∨
    ∃ d', Addition d d' ∧ outcome x d = (.ok (), d')

namespace MakesAt

variable {p : Path} {x : Io Unit}

theorem addition (hx : MakesAt p x) (d : Disk) : Addition d (outcome x d).2 := by
  rcases hx d with ⟨e, h, -⟩ | ⟨d', hadd, h⟩
  · rw [h]
    exact .same
  · rw [h]
    exact hadd

theorem keeping (hx : MakesAt p x) : Keeping x := fun d => (hx.addition d).keepsDirs

theorem adding (hx : MakesAt p x) : Adding x :=
  ⟨fun d => (hx.addition d).grows, fun d => (hx.addition d).outline_or_newEntry⟩

theorem tidy (hx : MakesAt p x) : Tidy x where
  keeps := hx.keeping
  tidy {d e d'} he _ := by
    rcases hx d with ⟨e₁, h, -⟩ | ⟨d₁, -, h⟩
    · rw [he] at h
      exact .inl (Prod.mk.inj h).2
    · rw [he] at h
      cases h

theorem collision (hx : MakesAt p x) {d d' : Disk} {e : IoError}
    (he : outcome x d = (.error e, d')) (hc : isCollision e) :
    ∃ r, d.resolve .entry p = .ok r ∧ r.node ≠ none := by
  rcases hx d with ⟨e₁, h, hat⟩ | ⟨d₁, -, h⟩
  · rw [he] at h
    cases h
    exact hat hc
  · rw [he] at h
    cases h

theorem throw {e : IoError} (he : ¬ isCollision e) : MakesAt p (throw e) :=
  fun _ => .inl ⟨e, rfl, fun hc => absurd hc he⟩

/-- A condition may be checked first. -/
theorem guard {e : IoError} (he : ¬ isCollision e) {cond : Prop} [Decidable cond]
    {k : PUnit → Io Unit} (hk : MakesAt p (k ⟨⟩)) :
    MakesAt p (if cond then MonadExcept.throw e >>= k else k ⟨⟩) := by
  split
  · exact throw he
  · exact hk

/-- What is there is in the way, and where nothing is something may be made. -/
theorem of_find (refused : Resolved → Bool) (refusal : IoError) (hr : ¬ isCollision refusal)
    (n : Node) :
    MakesAt p (do
      let r ← find .entry p
      if r.node.isSome then fail .fileExists
      else if refused r then MonadExcept.throw refusal
      else modify fun d => d.set r.location n) := by
  intro d
  rw [outcome_bind, outcome_find]
  cases hr : d.resolve .entry p with
  | error e => exact .inl ⟨e, rfl, fun hc => absurd hc (resolve_error d _ hr).1⟩
  | ok r =>
    dsimp only
    split
    · rename_i hsome
      exact .inl ⟨_, rfl, fun _ => ⟨r, rfl, by simpa [Option.isSome_iff_ne_none] using hsome⟩⟩
    split
    · exact .inl ⟨_, rfl, fun hc => absurd hc ‹_›⟩
    · rename_i hnone _
      rw [Option.not_isSome_iff_eq_none] at hnone
      obtain ⟨-, hl, hfind⟩ := resolve_entry d _ hr (by simp [hnone])
      exact .inr ⟨_, .entry hl (hfind.trans hnone) n, rfl⟩

end MakesAt

theorem mkdir_makesAt (p : Path) : MakesAt p (mkdir p) := by
  have hmake : MakesAt p _ := .of_find (fun _ => false) (.system .busy) (by decide) .dir
  simpa [mkdir] using hmake

theorem createNew_makesAt (p : Path) : MakesAt p (createNew p) :=
  .of_find Resolved.slash (.system .isDirectory) (by decide) _

theorem symlink_makesAt (target : String) (p : Path) : MakesAt p (symlink target p) := by
  unfold symlink
  dsimp only
  refine .guard (e := nulInName) (by decide) ?_
  refine .guard (e := .system .noEntry) (by decide) ?_
  refine .guard (e := .system .nameTooLong) (by decide) ?_
  exact .of_find Resolved.slash (.system .noEntry) (by decide) _

/-- A directory that was made is where nothing was. -/
theorem mkdir_newDir {p : Path} {d d' : Disk} {u : Unit} (h : outcome (mkdir p) d = (.ok u, d')) :
    NewDir d d' := by
  unfold mkdir at h
  rw [outcome_bind, outcome_find] at h
  cases hr : d.resolve .entry p with
  | error e =>
    rw [hr] at h
    cases h
  | ok r =>
    rw [hr] at h
    dsimp only at h
    split at h
    · cases h
    · rename_i hnone
      rw [Option.not_isSome_iff_eq_none] at hnone
      obtain ⟨-, hl, hfind⟩ := resolve_entry d _ hr (by simp [hnone])
      cases h
      exact ⟨r.location, hfind.trans hnone, by rw [find?_set, if_neg hl, if_pos rfl]⟩

theorem mkdir_preparing (p : Path) : Preparing (mkdir p) where
  keeps := (mkdir_makesAt p).keeping
  makes d := by
    rcases h : outcome (mkdir p) d with ⟨r, d'⟩
    cases r with
    | ok u => exact .inr (mkdir_newDir h)
    | error e =>
      rcases mkdir_makesAt p d with ⟨e', h', -⟩ | ⟨d₁, -, h'⟩
      · rw [h] at h'
        exact .inl (Prod.mk.inj h').2
      · rw [h] at h'
        cases h'

/-- Giving a file a second name fails and leaves the disk as it was, or keeps all directories. -/
theorem hardLink_cases (src dst : Path) (d : Disk) :
    (∃ e, outcome (hardLink src dst) d = (.error e, d)) ∨
      ∃ d', KeepsDirs d d' ∧ outcome (hardLink src dst) d = (.ok (), d') := by
  unfold hardLink
  rw [outcome_bind, outcome_find]
  cases hs : d.resolve .keep src with
  | error e => exact .inl ⟨e, rfl⟩
  | ok s =>
    dsimp only
    rw [outcome_bind, outcome_find]
    cases ht : d.resolve .entry dst with
    | error e => exact .inl ⟨e, rfl⟩
    | ok t =>
      dsimp only
      split
      · exact .inl ⟨_, rfl⟩
      split
      · exact .inl ⟨_, rfl⟩
      split
      · exact .inl ⟨_, rfl⟩
      rename_i n hn hnone _
      rw [Option.not_isSome_iff_eq_none] at hnone
      obtain ⟨-, hl, hfind⟩ := resolve_entry d _ ht (by simp [hnone])
      split
      · exact .inl ⟨_, rfl⟩
      · exact .inr ⟨_, keepsDirs_set (by simp [hfind, hnone]) _, rfl⟩
      · rename_i content mode shared
        obtain ⟨-, hl', hfind'⟩ := resolve_entry d _ hs (by simp [hn])
        -- Neither the file nor the place of its second name is a directory.
        refine .inr ⟨_, ?_, rfl⟩
        refine (keepsDirs_set (by simp [hfind', hn]) _).trans (keepsDirs_set ?_ _)
        rw [find?_set, if_neg hl]
        split
        · nofun
        · simp [hfind, hnone]

theorem hardLink_tidy (src dst : Path) : Tidy (hardLink src dst) where
  keeps d := by
    rcases hardLink_cases src dst d with ⟨e, h⟩ | ⟨d', hkeeps, h⟩
    · rw [h]
      exact .refl
    · rw [h]
      exact hkeeps
  tidy {d e d'} he _ := by
    rcases hardLink_cases src dst d with ⟨e₁, h⟩ | ⟨d₁, -, h⟩
    · rw [he] at h
      exact .inl (Prod.mk.inj h).2
    · rw [he] at h
      cases h

/-! ## Calls that take away -/

/-- What is taken away lay at the path and was no directory. -/
theorem unlink_cases (p : Path) (d : Disk) :
    (∃ e, ¬ isCollision e ∧ outcome (unlink p) d = (.error e, d)) ∨
      ∃ r n, d.resolve .entry p = .ok r ∧ r.dots = false ∧ n ≠ .dir ∧
        d.find? r.location = some n ∧ outcome (unlink p) d = (.ok (), d.erase r.location) := by
  unfold unlink
  rw [outcome_bind, outcome_find]
  cases hr : d.resolve .entry p with
  | error e => exact .inl ⟨e, (resolve_error d _ hr).1, rfl⟩
  | ok r =>
    dsimp only
    split
    · exact .inl ⟨_, by decide, rfl⟩
    · exact .inl ⟨_, by decide, rfl⟩
    · rename_i n hn hnode
      split
      · exact .inl ⟨_, by decide, rfl⟩
      · obtain ⟨hdots, -, hfind⟩ := resolve_entry d _ hr (by rwa [hnode, ne_eq, Option.some.injEq])
        exact .inr ⟨r, n, rfl, hdots, hn, hfind.trans hnode, rfl⟩

theorem unlink_clear (p : Path) : Clear (unlink p) where
  keeps d := by
    rcases unlink_cases p d with ⟨e, -, h⟩ | ⟨r, n, -, -, hn, hfind, h⟩
    · rw [h]
      exact .refl
    · rw [h]
      exact keepsDirs_erase (by simpa [hfind] using hn)
  clear {d e d'} he := by
    rcases unlink_cases p d with ⟨e₁, hclear, h⟩ | ⟨r, n, -, -, -, -, h⟩
    · rw [he] at h
      cases h
      exact hclear
    · rw [he] at h
      cases h

/-! ## Calls that rename -/

/-- On this disk a call succeeds, or is refused and changes nothing; neither is a collision or
    about devices. -/
def Refuses (x : Io α) (d : Disk) : Prop :=
  ∀ e d', outcome x d = (.error e, d') →
    d' = d ∧ ¬ isCollision e ∧ e.kind ≠ .crossesDevices

namespace Refuses

theorem fail {e : Errno} {d : Disk} (he : e ≠ .fileExists) (he' : e ≠ .crossDevice) :
    Refuses (fail e : Io α) d := by
  intro e₁ d' h
  cases h
  refine ⟨rfl, ?_, ?_⟩
  · change e.kind ≠ _
    cases e <;> first | exact absurd rfl he | decide
  · change e.kind ≠ _
    cases e <;> first | exact absurd rfl he' | decide

theorem of_ok {x : Io α} {d d' : Disk} {a : α} (h : outcome x d = (.ok a, d')) : Refuses x d := by
  intro e d₁ he
  rw [h] at he
  cases he

theorem of_outcome {x y : Io α} {d : Disk} (h : outcome x d = outcome y d) (hy : Refuses y d) :
    Refuses x d := by
  intro e d' he
  rw [h] at he
  exact hy e d' he

theorem find_bind {final : Final} {p : Path} {f : Resolved → Io α} {d : Disk}
    (hf : ∀ r, d.resolve final p = .ok r → Refuses (f r) d) : Refuses (find final p >>= f) d := by
  intro e d' h
  rw [outcome_bind, outcome_find] at h
  cases hr : d.resolve final p with
  | error e₁ =>
    rw [hr] at h
    cases h
    exact ⟨rfl, resolve_error d _ hr⟩
  | ok r =>
    rw [hr] at h
    exact hf r hr e d' h

theorem ite {c : Prop} [Decidable c] {x y : Io α} {d : Disk} (hx : Refuses x d) (hy : Refuses y d) :
    Refuses (if c then x else y) d := by
  split
  · exact hx
  · exact hy

end Refuses

/-- On one device a renaming that fails is refused. -/
theorem rename_refuses (src dst : Path) {d : Disk} (hd : d.split = false) :
    Refuses (rename src dst) d := by
  unfold rename
  refine .of_outcome (outcome_bind_of_ok (outcome_get d)) ?_
  rw [if_neg (by simp [hd])]
  refine .find_bind fun s _ => .find_bind fun t _ => ?_
  refine .ite (Refuses.fail (e := .busy) (by decide) (by decide)) ?_
  cases s.node with
  | none => exact .fail (by decide) (by decide)
  | some n =>
    refine .ite (.fail (by decide) (by decide)) (.ite (.fail (by decide) (by decide)) ?_)
    refine .ite (.fail (by decide) (by decide)) (.ite (.of_ok rfl) ?_)
    -- Something may be at the target, which is then taken away first.
    cases t.node with
    | none => exact .of_ok rfl
    | some m =>
      refine .ite (.of_ok rfl) (.ite (.fail (by decide) (by decide)) ?_)
      refine .ite (.fail (by decide) (by decide)) ?_
      refine .of_outcome (outcome_bind_of_ok (outcome_get d)) ?_
      exact .ite (.fail (by decide) (by decide)) (.of_ok rfl)

/-- Between devices every renaming fails. -/
theorem rename_of_split (src dst : Path) {d : Disk} (hd : d.split = true) :
    outcome (rename src dst) d = (.error (.system .crossDevice), d) := by
  unfold rename
  rw [outcome_bind_of_ok (outcome_get d)]
  rw [if_pos hd]
  rfl

/-- A renaming that succeeds finds where to. -/
theorem resolve_of_rename {src dst : Path} {d d' : Disk}
    (h : outcome (rename src dst) d = (.ok (), d')) : ∃ r, d.resolve .entry dst = .ok r := by
  cases hsplit : d.split with
  | true =>
    rw [rename_of_split src dst hsplit] at h
    cases h
  | false =>
    unfold rename at h
    rw [outcome_bind_of_ok (outcome_get d), if_neg (by simp [hsplit])] at h
    obtain ⟨s, d₁, hs, h⟩ := outcome_bind_eq_ok.mp h
    obtain ⟨t, d₂, ht, -⟩ := outcome_bind_eq_ok.mp h
    rw [outcome_find] at hs ht
    obtain rfl := (Prod.mk.inj hs).2
    exact ⟨t, (Prod.mk.inj ht).1⟩

/-! ## Taking away a tree -/

/-- A call of which no failure is a collision; it may change anything. -/
def Unopposed [Collides ε] (x : Call ε α) : Prop :=
  ∀ {d e d'}, outcome x d = (.error e, d') → ¬ isCollision e

theorem Unopposed.bind [Collides ε] {x : Call ε α} {f : α → Call ε β} (hx : Unopposed x)
    (hf : ∀ a, Unopposed (f a)) : Unopposed (x >>= f) := by
  intro d e d' h
  rcases outcome_bind_eq_error.mp h with hx' | ⟨a, d₁, -, hf'⟩
  · exact hx hx'
  · exact hf a hf'

theorem rmdir_unopposed (p : Path) : Unopposed (rmdir p) := by
  refine Unopposed.bind (find_clear _ _).clear fun r => ?_
  split
  · exact (fail_clear (by decide)).clear
  · split
    · exact (fail_clear (by decide)).clear
    split
    · exact (fail_clear (by decide)).clear
    refine Unopposed.bind (fun h => by cases h) fun d => ?_
    split
    · exact (fail_clear (by decide)).clear
    · exact fun h => by cases h
  · exact (fail_clear (by decide)).clear

theorem removeDirAll_unopposed (p : Path) : Unopposed (removeDirAll p) := by
  refine Unopposed.bind (find_clear _ _).clear fun r => ?_
  split
  · exact (fail_clear (by decide)).clear
  · exact (unlink_clear p).clear
  · exact (fail_clear (by decide)).clear
  · exact Unopposed.bind (fun h => by cases h) fun _ => rmdir_unopposed p

end GameInstaller.Disk
