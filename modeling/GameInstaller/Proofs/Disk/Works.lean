import GameInstaller.Disk.Transfer
import GameInstaller.Proofs.Disk.Entries
import GameInstaller.Proofs.Disk.Outcome

/-!
# Works on a disk

Calls by what they may do to a disk when they collide with something that is there already.

* `Quiet x`       `x` changes nothing
* `Preparing x`   `x` changes nothing or makes a directory, whatever comes of it
* `Clear x`       `x` never collides
* `Tidy x`        `x` changes nothing or makes a directory when it collides

None of them loses a directory.  So an operation that is a list of tidy works, and collides, leaves
the disk as it was only if the works before the one that collided did (`alike_iff_untouched`).
-/

namespace GameInstaller.Disk

variable {ε ε' α β : Type}

/-- Failures among which are those of something that is there already. -/
class Collides (ε : Type) where
  /-- Something is there already. -/
  isCollision : ε → Prop

export Collides (isCollision)

instance : Collides IoError := ⟨fun e => e.kind = .alreadyExists⟩

instance : Collides Fault := ⟨fun f => f.kind = .alreadyExists⟩

instance (e : IoError) : Decidable (isCollision e) :=
  inferInstanceAs (Decidable (e.kind = .alreadyExists))

/-- A classified failure is a collision when its cause is. -/
theorem isCollision_ofIo {p : Path} {e : IoError} :
    isCollision (Fault.ofIo p e) ↔ isCollision e := by
  change (Fault.ofIo p e).kind = _ ↔ e.kind = _
  unfold Fault.ofIo
  cases e.kind <;> simp [Fault.kind]

/-! ## Calls that change nothing -/

/-- A call that changes nothing. -/
def Quiet (x : Call ε α) : Prop := ∀ d, (outcome x d).2 = d

theorem Quiet.pure (a : α) : Quiet (Pure.pure a : Call ε α) := fun _ => rfl

theorem Quiet.throw (e : ε) : Quiet (throw e : Call ε α) := fun _ => rfl

theorem Quiet.fail (e : Errno) : Quiet (fail e : Io α) := fun _ => rfl

theorem Quiet.get : Quiet (MonadState.get : Call ε Disk) := fun _ => rfl

theorem Quiet.find (final : Final) (p : Path) : Quiet (find final p) := fun d => by
  rw [outcome_find]

theorem Quiet.bind {x : Call ε α} {f : α → Call ε β} (hx : Quiet x) (hf : ∀ a, Quiet (f a)) :
    Quiet (x >>= f) := by
  intro d
  have hd := hx d
  rcases h : outcome x d with ⟨r, d'⟩
  rw [h] at hd
  obtain rfl : d' = d := hd
  cases r with
  | ok a =>
    rw [outcome_bind_of_ok h]
    exact hf a d'
  | error e => rw [outcome_bind_of_error h]

/-! ## Calls that keep directories -/

/-- A call that loses no directory. -/
def Keeping (x : Call ε α) : Prop := ∀ d, KeepsDirs d (outcome x d).2

theorem Quiet.attempt {x : Call ε α} (hx : Quiet x) :
    Quiet (attempt x : Call ε' (Except ε α)) := hx

theorem Quiet.keeping {x : Call ε α} (hx : Quiet x) : Keeping x := fun d => by
  rw [hx d]
  exact .refl

theorem Keeping.bind {x : Call ε α} {f : α → Call ε β} (hx : Keeping x)
    (hf : ∀ a, Keeping (f a)) : Keeping (x >>= f) := by
  intro d
  have hd := hx d
  rcases h : outcome x d with ⟨r, d'⟩
  rw [h] at hd
  cases r with
  | ok a =>
    rw [outcome_bind_of_ok h]
    exact hd.trans (hf a d')
  | error e => rwa [outcome_bind_of_error h]

theorem Keeping.attempt {x : Call ε α} (hx : Keeping x) :
    Keeping (attempt x : Call ε' (Except ε α)) := hx

theorem Keeping.forM {f : α → Call ε PUnit} {xs : List α} (hf : ∀ x ∈ xs, Keeping (f x)) :
    Keeping (xs.forM f) := by
  induction xs with
  | nil => exact (Quiet.pure _).keeping
  | cons x xs ih =>
    exact (hf x List.mem_cons_self).bind fun _ => ih fun y hy => hf y (List.mem_cons_of_mem _ hy)

theorem Keeping.mapM {f : α → Call ε β} {xs : List α} (hf : ∀ x ∈ xs, Keeping (f x)) :
    Keeping (xs.mapM f) := by
  induction xs with
  | nil => exact (Quiet.pure _).keeping
  | cons x xs ih =>
    rw [List.mapM_cons]
    refine (hf x List.mem_cons_self).bind fun b => ?_
    refine (ih fun y hy => hf y (List.mem_cons_of_mem _ hy)).bind fun bs => ?_
    exact (Quiet.pure _).keeping

/-! ## Calls that make directories -/

/-- A call that changes nothing, or makes at least one directory. -/
structure Preparing (x : Call ε α) : Prop where
  keeps : Keeping x
  makes : ∀ d, (outcome x d).2 = d ∨ NewDir d (outcome x d).2

theorem Quiet.preparing {x : Call ε α} (hx : Quiet x) : Preparing x :=
  ⟨hx.keeping, fun d => .inl (hx d)⟩

theorem Preparing.bind {x : Call ε α} {f : α → Call ε β} (hx : Preparing x)
    (hf : ∀ a, Preparing (f a)) : Preparing (x >>= f) where
  keeps := hx.keeps.bind fun a => (hf a).keeps
  makes := by
    intro d
    have hd := hx.makes d
    rcases h : outcome x d with ⟨r, d'⟩
    rw [h] at hd
    cases r with
    | error e => rwa [outcome_bind_of_error h]
    | ok a =>
      rw [outcome_bind_of_ok h]
      rcases hd with rfl | hnew
      · exact (hf a).makes _
      · exact .inr (hnew.keep ((hf a).keeps d'))

theorem Preparing.attempt {x : Call ε α} (hx : Preparing x) :
    Preparing (attempt x : Call ε' (Except ε α)) := ⟨hx.keeps, hx.makes⟩

theorem Preparing.forM {f : α → Call ε PUnit} {xs : List α} (hf : ∀ x ∈ xs, Preparing (f x)) :
    Preparing (xs.forM f) := by
  induction xs with
  | nil => exact (Quiet.pure _).preparing
  | cons x xs ih =>
    exact (hf x List.mem_cons_self).bind fun _ => ih fun y hy => hf y (List.mem_cons_of_mem _ hy)

/-! ## Collisions -/

section Collisions

variable [Collides ε]

/-- A call that never collides. -/
structure Clear (x : Call ε α) : Prop where
  keeps : Keeping x
  clear : ∀ {d e d'}, outcome x d = (.error e, d') → ¬ isCollision e

/-- A call that changes nothing, or makes at least one directory, when it collides. -/
structure Tidy (x : Call ε α) : Prop where
  keeps : Keeping x
  tidy : ∀ {d e d'}, outcome x d = (.error e, d') → isCollision e → d' = d ∨ NewDir d d'

theorem Clear.tidy {x : Call ε α} (hx : Clear x) : Tidy x :=
  ⟨hx.keeps, fun he hc => absurd hc (hx.clear he)⟩

theorem Preparing.tidy {x : Call ε α} (hx : Preparing x) : Tidy x where
  keeps := hx.keeps
  tidy {d e d'} he _ := by
    have := hx.makes d
    rwa [he] at this

theorem Clear.pure (a : α) : Clear (Pure.pure a : Call ε α) := ⟨(Quiet.pure a).keeping, nofun⟩

theorem Clear.throw {e : ε} (he : ¬ isCollision e) : Clear (throw e : Call ε α) where
  keeps := (Quiet.throw e).keeping
  clear h := by
    cases h
    exact he

theorem Clear.bind {x : Call ε α} {f : α → Call ε β} (hx : Clear x) (hf : ∀ a, Clear (f a)) :
    Clear (x >>= f) where
  keeps := hx.keeps.bind fun a => (hf a).keeps
  clear h := by
    rcases outcome_bind_eq_error.mp h with hx' | ⟨a, d₁, -, hf'⟩
    · exact hx.clear hx'
    · exact (hf a).clear hf'

theorem Clear.forM {f : α → Call ε PUnit} {xs : List α} (hf : ∀ x ∈ xs, Clear (f x)) :
    Clear (xs.forM f) := by
  induction xs with
  | nil => exact .pure _
  | cons x xs ih =>
    exact (hf x List.mem_cons_self).bind fun _ => ih fun y hy => hf y (List.mem_cons_of_mem _ hy)

/-- Nothing that matters happens before a tidy call. -/
theorem Preparing.bind_tidy {x : Call ε α} {f : α → Call ε β} (hx : Preparing x)
    (hf : ∀ a, Tidy (f a)) : Tidy (x >>= f) where
  keeps := hx.keeps.bind fun a => (hf a).keeps
  tidy {d e d'} h hc := by
    have hd := hx.makes d
    rcases outcome_bind_eq_error.mp h with hx' | ⟨a, d₁, hx', hf'⟩
    · rwa [hx'] at hd
    · rw [hx'] at hd
      rcases hd with rfl | hnew
      · exact (hf a).tidy hf' hc
      · have hkeeps := (hf a).keeps d₁
        rw [hf'] at hkeeps
        exact .inr (hnew.keep hkeeps)

/-- A tidy call may be followed by what never collides. -/
theorem Tidy.bind_clear {x : Call ε α} {f : α → Call ε β} (hx : Tidy x) (hf : ∀ a, Clear (f a)) :
    Tidy (x >>= f) where
  keeps := hx.keeps.bind fun a => (hf a).keeps
  tidy {d e d'} h hc := by
    rcases outcome_bind_eq_error.mp h with hx' | ⟨a, d₁, -, hf'⟩
    · exact hx.tidy hx' hc
    · exact absurd hc ((hf a).clear hf')

end Collisions

/-! ## Works -/

section Works

variable [Collides ε]

/-- Of a list of works those before the first that collides leave the disk as it is, and so does the
    one that collides. -/
def Untouched (works : List (Call ε PUnit)) (d : Disk) : Prop :=
  ∃ before work rest d₁ e, works = before ++ work :: rest ∧
    outcome (before.forM id) d = (.ok ⟨⟩, d₁) ∧ Alike d d₁ ∧
    outcome work d₁ = (.error e, d₁) ∧ isCollision e

/-- As far as collisions go that make no entry, an operation on a disk is a list of works. -/
def Follows (d : Disk) (x : Call ε α) (works : List (Call ε PUnit)) : Prop :=
  ∀ e d', isCollision e → ¬ NewEntry d d' →
    (outcome x d = (.error e, d') ↔ outcome (works.forM id) d = (.error e, d'))

/-- An operation that collides leaves the disk as it was exactly if its works before the collision
    did. -/
theorem alike_iff_untouched {d d' : Disk} {x : Call ε α} {e : ε} {works : List (Call ε PUnit)}
    (hf : Follows d x works) (ht : ∀ work ∈ works, Tidy work) (hx : outcome x d = (.error e, d'))
    (hc : isCollision e) : Alike d d' ↔ Untouched works d := by
  constructor
  · intro ha
    have hworks := (hf _ _ hc ha.not_newEntry).mp hx
    obtain ⟨before, work, rest, d₁, rfl, hbefore, hwork⟩ := outcome_forM_eq_error.mp hworks
    have hkeeps : KeepsDirs d d₁ := by
      have hkeeping : Keeping (before.forM id) :=
        .forM fun w hw => (ht w (List.mem_append_left _ hw)).keeps
      have hd := hkeeping d
      rwa [hbefore] at hd
    -- A directory that the colliding work had made would still be there.
    rcases (ht work (by simp)).tidy hwork hc with rfl | hnew
    · exact ⟨before, work, rest, d', e, rfl, hbefore, ha, hwork, hc⟩
    · exact absurd hnew (ha.not_newDir hkeeps)
  · rintro ⟨before, work, rest, d₁, e₁, rfl, hbefore, ha, hwork, hc₁⟩
    have hworks := outcome_forM_eq_error.mpr ⟨before, work, rest, d₁, rfl, hbefore, hwork⟩
    have hx₁ := (hf _ _ hc₁ ha.not_newEntry).mpr hworks
    rw [hx] at hx₁
    cases hx₁
    exact ha

theorem Follows.of_outcome {d : Disk} {x : Call ε PUnit} {works : List (Call ε PUnit)}
    (h : outcome x d = outcome (works.forM id) d) : Follows d x works := by
  intro e d' _ _
  rw [h]

theorem Follows.refl (d : Disk) (work : Call ε PUnit) : Follows d work [work] :=
  .of_outcome (outcome_forM_singleton work d).symm

/-- A work that prepares may come first. -/
theorem Follows.cons {d : Disk} {work : Call ε PUnit} {x : Call ε α} {works : List (Call ε PUnit)}
    (hw : Preparing work) (hx : Follows d x works) (hworks : ∀ work ∈ works, Keeping work)
    (hkeep : ∀ {d₁ e d'}, outcome x d₁ = (.error e, d') → isCollision e → KeepsDirs d₁ d') :
    Follows d (work >>= fun _ => x) (work :: works) := by
  intro e d' hc hnew
  have hmakes := hw.makes d
  rw [outcome_forM_cons]
  rcases h : outcome work d with ⟨r, d₁⟩
  rw [h] at hmakes
  cases r with
  | error e₁ =>
    rw [outcome_bind_of_error h, outcome_bind_of_error (x := id work) h]
    simp only [Prod.mk.injEq, Except.error.injEq]
  | ok u =>
    rw [outcome_bind_of_ok h, outcome_bind_of_ok (x := id work) h]
    rcases hmakes with rfl | hdir
    · exact hx _ _ hc hnew
    · -- A directory that was made first is new in the end.
      constructor
      · intro he
        exact absurd (hdir.keep (hkeep he hc)).newEntry hnew
      · intro he
        have hkeeping : Keeping (works.forM id) := .forM hworks
        have hkeeps := hkeeping d₁
        rw [he] at hkeeps
        exact absurd (hdir.keep hkeeps).newEntry hnew

/-- A single work is untouched when it collides and changes nothing. -/
theorem untouched_singleton {work : Call ε PUnit} {d : Disk} :
    Untouched [work] d ↔ ∃ e, isCollision e ∧ outcome work d = (.error e, d) := by
  constructor
  · rintro ⟨before, w, rest, d₁, e, hsplit, hbefore, -, hw, hc⟩
    cases before with
    | nil =>
      obtain ⟨rfl, -⟩ := List.cons.inj hsplit
      cases hbefore
      exact ⟨e, hc, hw⟩
    | cons w' before => simp at hsplit
  · rintro ⟨e, hc, hw⟩
    exact ⟨[], work, [], d, e, rfl, rfl, .refl d, hw, hc⟩

end Works

end GameInstaller.Disk
