/-!
# Actions on a state

Lemmas on running actions, and two ways to compare what they do.

* `Related R x y`    in states related by `R` the actions `x` and `y` give the same, and keep `R`
* `Unseen R x`       on either side the action `x` keeps `R`
* `Silent view x`    the action `x` changes nothing that `view` shows
-/

namespace GameInstaller

/-! ## Results -/

section Results

variable {ε ε' α β : Type}

theorem map_eq_ok_iff {f : α → β} {x : Except ε α} {b : β} :
    x.map f = .ok b ↔ ∃ a, x = .ok a ∧ f a = b := by
  cases x <;> simp [Except.map]

theorem map_eq_error_iff {f : α → β} {x : Except ε α} {e : ε} :
    x.map f = .error e ↔ x = .error e := by
  cases x <;> simp [Except.map]

theorem mapError_eq_ok {f : ε → ε'} {x : Except ε α} {a : α} :
    x.mapError f = .ok a ↔ x = .ok a := by
  cases x with
  | ok a' =>
    exact ⟨fun h => congrArg Except.ok (Except.ok.inj h),
      fun h => congrArg Except.ok (Except.ok.inj h)⟩
  | error e => exact iff_of_false nofun nofun

theorem bind_eq_ok_iff {x : Except ε α} {f : α → Except ε β} {b : β} :
    x >>= f = .ok b ↔ ∃ a, x = .ok a ∧ f a = .ok b := by
  cases x <;> simp [bind, Except.bind]

/-- What succeeds meets no defect. -/
theorem eq_none_of_eq_ok {x : Except ε α} {defect? : Option ε} {a : α}
    (h : ∀ e, x = .error e ↔ defect? = some e) (hx : x = .ok a) : defect? = none := by
  cases hd : defect? with
  | none => rfl
  | some e => exact absurd ((h e).mpr hd) (by simp [hx])

end Results

/-! ## Actions -/

variable {σ τ κ α β : Type}

/-- An action and what follows it, when the outcome of the action is known. -/
theorem run_bind_of {x : StateM σ α} {f : α → StateM σ β} {s t : σ} {a : α}
    (hx : x.run s = (a, t)) : (x >>= f).run s = (f a).run t := by
  rw [StateT.run_bind, hx]
  rfl

/-- From related states two actions give the same and lead to related states. -/
def Related (R : σ → τ → Prop) (x : StateM σ α) (y : StateM τ α) : Prop :=
  ∀ s t, R s t → (x.run s).1 = (y.run t).1 ∧ R (x.run s).2 (y.run t).2

/-- An action that makes no difference to a relation between states, on whichever side it is done. -/
def Unseen (R : σ → σ → Prop) (x : StateM σ α) : Prop :=
  ∀ s t, R s t → R (x.run s).2 t ∧ R s (x.run t).2

/-- Two states look the same. -/
def Agree (view : σ → κ) (s t : σ) : Prop := view s = view t

/-- An action changes nothing that can be seen. -/
def Silent (view : σ → κ) (x : StateM σ α) : Prop := ∀ s, view (x.run s).2 = view s

namespace Related

variable {R : σ → τ → Prop}

theorem pure (a : α) : Related R (Pure.pure a) (Pure.pure a) :=
  fun _ _ hR => ⟨rfl, hR⟩

theorem bind {x : StateM σ α} {y : StateM τ α} {f : α → StateM σ β} {g : α → StateM τ β}
    (hx : Related R x y) (hf : ∀ a, Related R (f a) (g a)) :
    Related R (x >>= f) (y >>= g) := by
  intro s t hR
  obtain ⟨ha, hR'⟩ := hx s t hR
  rcases hxs : x.run s with ⟨a, s'⟩
  rcases hyt : y.run t with ⟨b, t'⟩
  rw [hxs, hyt] at ha hR'
  obtain rfl : a = b := ha
  rw [run_bind_of hxs, run_bind_of hyt]
  exact hf a s' t' hR'

/-- An answer may be put in another form. -/
theorem map {x : StateM σ α} {y : StateM τ α} (hx : Related R x y) (f : α → β) :
    Related R (do return f (← x)) (do return f (← y)) :=
  hx.bind fun a => .pure (f a)

/-- An unseen action may be done first on the left. -/
theorem skip_left {R : σ → σ → Prop} {x : StateM σ α} {f : α → StateM σ β} {y : StateM σ β}
    (hx : Unseen R x) (hf : ∀ a, Related R (f a) y) : Related R (x >>= f) y := by
  intro s t hR
  rcases hxs : x.run s with ⟨a, s'⟩
  have hR' := (hx s t hR).1
  rw [hxs] at hR'
  rw [run_bind_of hxs]
  exact hf a s' t hR'

/-- An unseen action may be done first on the right. -/
theorem skip_right {R : σ → σ → Prop} {x : StateM σ β} {y : StateM σ α} {f : α → StateM σ β}
    (hy : Unseen R y) (hf : ∀ a, Related R x (f a)) : Related R x (y >>= f) := by
  intro s t hR
  rcases hyt : y.run t with ⟨a, t'⟩
  have hR' := (hy s t hR).2
  rw [hyt] at hR'
  rw [run_bind_of hyt]
  exact hf a s t' hR'

end Related

theorem Unseen.pure {R : σ → σ → Prop} (a : α) : Unseen R (Pure.pure a : StateM σ α) :=
  fun _ _ hR => ⟨hR, hR⟩

theorem Unseen.bind {R : σ → σ → Prop} {x : StateM σ α} {f : α → StateM σ β} (hx : Unseen R x)
    (hf : ∀ a, Unseen R (f a)) : Unseen R (x >>= f) := by
  intro s t hR
  rcases hxs : x.run s with ⟨a, s'⟩
  rcases hxt : x.run t with ⟨b, t'⟩
  obtain ⟨hs, ht⟩ := hx s t hR
  rw [hxs] at hs
  rw [hxt] at ht
  rw [run_bind_of hxs, run_bind_of hxt]
  exact ⟨(hf a s' t hs).1, (hf b s t' ht).2⟩

/-- What changes nothing that can be seen makes no difference to how states look. -/
theorem Silent.unseen {view : σ → κ} {x : StateM σ α} (hx : Silent view x) :
    Unseen (Agree view) x :=
  fun s t hR => ⟨(hx s).trans hR, hR.trans (hx t).symm⟩

end GameInstaller
