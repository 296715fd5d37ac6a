import GameInstaller.Disk.Calls

/-!
# Outcomes of calls

What a call on a disk gives and leaves, and how the outcomes of calls in a row come about.

* `outcome x d`   what the call `x` gives on the disk `d`, and the disk after it
* `series f xs d` what the calls for a list give, one after the other, and the disk after the last
-/

namespace GameInstaller.Disk

variable {ε ε' α β : Type}

/-- What a call gives on a disk, and the disk after it. -/
def outcome (x : Call ε α) (d : Disk) : Except ε α × Disk := (ExceptT.run x).run d

@[simp] theorem outcome_pure (a : α) (d : Disk) :
    outcome (pure a : Call ε α) d = (.ok a, d) := rfl

@[simp] theorem outcome_throw (e : ε) (d : Disk) :
    outcome (throw e : Call ε α) d = (.error e, d) := rfl

@[simp] theorem outcome_fail (e : Errno) (d : Disk) :
    outcome (fail e : Io α) d = (.error (.system e), d) := rfl

@[simp] theorem outcome_get (d : Disk) : outcome (get : Call ε Disk) d = (.ok d, d) := rfl

@[simp] theorem outcome_modify (f : Disk → Disk) (d : Disk) :
    outcome (modify f : Call ε PUnit) d = (.ok ⟨⟩, f d) := rfl

@[simp] theorem outcome_attempt (x : Call ε α) (d : Disk) :
    outcome (attempt x : Call ε' (Except ε α)) d = (.ok (outcome x d).1, (outcome x d).2) := rfl

/-- A call and what follows it. -/
theorem outcome_bind (x : Call ε α) (f : α → Call ε β) (d : Disk) :
    outcome (x >>= f) d = match outcome x d with
      | (.ok a, d') => outcome (f a) d'
      | (.error e, d') => (.error e, d') := by
  -- Once the outcome of the first call is known, the monad only passes it on.
  rcases h : outcome x d with ⟨r, d'⟩
  have hx : (ExceptT.run x).run d = (r, d') := h
  simp only [outcome, ExceptT.run_bind, StateT.run_bind, hx]
  cases r with
  | ok a => rfl
  | error e => rfl

theorem outcome_bind_of_ok {x : Call ε α} {f : α → Call ε β} {d d' : Disk} {a : α}
    (hx : outcome x d = (.ok a, d')) : outcome (x >>= f) d = outcome (f a) d' := by
  rw [outcome_bind, hx]

theorem outcome_bind_of_error {x : Call ε α} {f : α → Call ε β} {d d' : Disk} {e : ε}
    (hx : outcome x d = (.error e, d')) : outcome (x >>= f) d = (.error e, d') := by
  rw [outcome_bind, hx]

/-- Calls in a row succeed when the first one does and what follows it does. -/
theorem outcome_bind_eq_ok {x : Call ε α} {f : α → Call ε β} {d d' : Disk} {b : β} :
    outcome (x >>= f) d = (.ok b, d') ↔
      ∃ a d₁, outcome x d = (.ok a, d₁) ∧ outcome (f a) d₁ = (.ok b, d') := by
  rw [outcome_bind]
  rcases outcome x d with ⟨r, d₁⟩
  cases r with
  | ok a =>
    constructor
    · exact fun hf => ⟨a, d₁, rfl, hf⟩
    · rintro ⟨a', d₂, hx, hf⟩
      cases hx
      exact hf
  | error e =>
    constructor
    · nofun
    · rintro ⟨a, d₂, hx, -⟩
      cases hx

/-- Calls in a row that fail do so in the first or in what follows it. -/
theorem outcome_bind_eq_error {x : Call ε α} {f : α → Call ε β} {d d' : Disk} {e : ε} :
    outcome (x >>= f) d = (.error e, d') ↔
      outcome x d = (.error e, d') ∨
        ∃ a d₁, outcome x d = (.ok a, d₁) ∧ outcome (f a) d₁ = (.error e, d') := by
  rw [outcome_bind]
  rcases outcome x d with ⟨r, d₁⟩
  cases r with
  | ok a =>
    constructor
    · exact fun hf => .inr ⟨a, d₁, rfl, hf⟩
    · rintro (hx | ⟨a', d₂, hx, hf⟩)
      · cases hx
      · cases hx
        exact hf
  | error e₁ =>
    constructor
    · intro hx
      cases hx
      exact .inl rfl
    · rintro (hx | ⟨a', d₂, hx, -⟩)
      · cases hx
        rfl
      · cases hx

theorem outcome_forM_nil (f : α → Call ε PUnit) (d : Disk) :
    outcome (List.forM [] f) d = (.ok ⟨⟩, d) := rfl

theorem outcome_forM_cons (f : α → Call ε PUnit) (x : α) (xs : List α) (d : Disk) :
    outcome (List.forM (x :: xs) f) d = outcome (f x >>= fun _ => List.forM xs f) d := rfl

theorem outcome_forM_singleton (call : Call ε PUnit) (d : Disk) :
    outcome ([call].forM id) d = outcome call d := by
  rw [outcome_forM_cons, outcome_bind]
  rcases h : outcome call d with ⟨r, d₁⟩
  cases r with
  | ok u => rw [id, h]; rfl
  | error e => rw [id, h]

/-- Lists of calls one after the other are one list. -/
theorem outcome_forM_append (calls calls' : List (Call ε PUnit)) (d : Disk) :
    outcome ((calls ++ calls').forM id) d =
      outcome (calls.forM id >>= fun _ => calls'.forM id) d := by
  induction calls generalizing d with
  | nil => rw [outcome_bind_of_ok (outcome_forM_nil id d), List.nil_append]
  | cons call calls ih =>
    rw [List.cons_append, outcome_forM_cons, outcome_bind, outcome_bind, outcome_forM_cons,
      outcome_bind]
    rcases outcome (id call) d with ⟨r, d₁⟩
    cases r with
    | ok u =>
      dsimp only
      rw [ih, outcome_bind]
    | error e => rfl

theorem outcome_forM_map (f : α → Call ε PUnit) (xs : List α) (d : Disk) :
    outcome ((xs.map f).forM id) d = outcome (xs.forM f) d := by
  induction xs generalizing d with
  | nil => rfl
  | cons x xs ih =>
    rw [List.map_cons, outcome_forM_cons, outcome_forM_cons, outcome_bind, outcome_bind, id]
    rcases outcome (f x) d with ⟨r, d₁⟩
    cases r with
    | ok u => exact ih d₁
    | error e => rfl

/-- A failed list of calls in a row has a first call that failed. -/
theorem outcome_forM_eq_error {xs : List α} {f : α → Call ε PUnit} {d d' : Disk} {e : ε} :
    outcome (xs.forM f) d = (.error e, d') ↔
      ∃ before x rest d₁, xs = before ++ x :: rest ∧ outcome (before.forM f) d = (.ok ⟨⟩, d₁) ∧
        outcome (f x) d₁ = (.error e, d') := by
  induction xs generalizing d with
  | nil =>
    constructor
    · nofun
    · rintro ⟨before, x, rest, -, hnil, -⟩
      simp at hnil
  | cons x xs ih =>
    rw [outcome_forM_cons, outcome_bind_eq_error]
    constructor
    · rintro (hx | ⟨⟨⟩, d₁, hx, hxs⟩)
      · exact ⟨[], x, xs, d, rfl, rfl, hx⟩
      · obtain ⟨before, y, rest, d₂, rfl, hbefore, hy⟩ := ih.mp hxs
        refine ⟨x :: before, y, rest, d₂, rfl, ?_, hy⟩
        rw [outcome_forM_cons, outcome_bind_of_ok hx, hbefore]
    · rintro ⟨before, y, rest, d₂, hsplit, hbefore, hy⟩
      -- Either the first call failed, or it is the first of those that did not.
      cases before with
      | nil =>
        obtain ⟨rfl, rfl⟩ := List.cons.inj hsplit
        cases hbefore
        exact .inl hy
      | cons z before =>
        obtain ⟨rfl, rfl⟩ := List.cons.inj hsplit
        rw [outcome_forM_cons, outcome_bind] at hbefore
        rcases hx : outcome (f x) d with ⟨r, d₁⟩
        rw [hx] at hbefore
        cases r with
        | error e₁ => cases hbefore
        | ok a => exact .inr ⟨a, d₁, rfl, ih.mpr ⟨before, y, rest, d₂, rfl, hbefore, hy⟩⟩

@[simp] theorem outcome_find (final : Final) (p : Path) (d : Disk) :
    outcome (find final p) d = (d.resolve final p, d) := by
  unfold find
  rw [outcome_bind_of_ok (outcome_get d)]
  cases d.resolve final p with
  | ok r => rfl
  | error e => rfl

/-! ## Calls whatever comes of those before -/

/-- What the calls for a list give when each is made after the one before it, whether or not that
    failed; and the disk after the last. -/
def series (f : α → Call ε β) : List α → Disk → List (α × Except ε β) × Disk
  | [], d => ([], d)
  | x :: rest, d =>
    let (r, d₁) := outcome (f x) d
    let (made, d₂) := series f rest d₁
    ((x, r) :: made, d₂)

theorem series_cons (f : α → Call ε β) (x : α) (rest : List α) (d : Disk) :
    series f (x :: rest) d =
      ((x, (outcome (f x) d).1) :: (series f rest (outcome (f x) d).2).1,
        (series f rest (outcome (f x) d).2).2) := rfl

theorem series_map_fst (f : α → Call ε β) (xs : List α) (d : Disk) :
    (series f xs d).1.map Prod.fst = xs := by
  induction xs generalizing d with
  | nil => rfl
  | cons x rest ih => rw [series_cons, List.map_cons, ih]

/-- What each call keeps holds after all of them. -/
theorem series_induction {f : α → Call ε β} {P : List (α × Except ε β) → Disk → Prop} {xs : List α}
    {d₀ : Disk} (hstart : P [] d₀)
    (hstep : ∀ made d, ∀ x ∈ xs, P made d →
      P (made ++ [(x, (outcome (f x) d).1)]) (outcome (f x) d).2) :
    P (series f xs d₀).1 (series f xs d₀).2 := by
  suffices hrun : ∀ made d, P made d → P (made ++ (series f xs d).1) (series f xs d).2 by
    simpa using hrun [] d₀ hstart
  clear hstart
  induction xs with
  | nil =>
    intro made d h
    simpa [series] using h
  | cons x rest ih =>
    intro made d h
    have hx := hstep made d x List.mem_cons_self h
    have hrest := ih (fun made d y hy => hstep made d y (List.mem_cons_of_mem _ hy)) _ _ hx
    rw [series_cons]
    rwa [List.append_assoc, List.singleton_append] at hrest

end GameInstaller.Disk
