import GameInstaller.Proofs.Disk.Calls

/-!
# Making directories with their parents

Making a directory with its parents climbs up over what is missing and comes down again.  It
changes nothing or makes a directory, so a collision leaves no trace exactly if it is met on the way
up: when the path is blocked (`createDirAll_collides_iff`).
-/

namespace GameInstaller.Disk

/-! ## What is made -/

/-- A call that adds to the disk nothing or at least a directory. -/
structure Building {ε α : Type} (x : Call ε α) : Prop extends Preparing x, Adding x

theorem Building.bind {ε α β : Type} {x : Call ε α} {f : α → Call ε β} (hx : Building x)
    (hf : ∀ a, Building (f a)) : Building (x >>= f) :=
  ⟨hx.toPreparing.bind fun a => (hf a).toPreparing, hx.toAdding.bind fun a => (hf a).toAdding⟩

theorem Building.attempt {ε ε' α : Type} {x : Call ε α} (hx : Building x) :
    Building (attempt x : Call ε' (Except ε α)) := ⟨hx.toPreparing.attempt, hx.toAdding.attempt⟩

theorem Quiet.building {ε α : Type} {x : Call ε α} (hx : Quiet x) : Building x :=
  ⟨hx.preparing, hx.adding⟩

theorem mkdir_building (p : Path) : Building (mkdir p) :=
  ⟨mkdir_preparing p, (mkdir_makesAt p).adding⟩

theorem dirThere_quiet (p : Path) (e : IoError) : Quiet (dirThere p e) :=
  Quiet.get.bind fun _ => .pure _

theorem climb_building (fuel : Nat) (p : Path) (todo : List Path) : Building (climb fuel p todo) := by
  induction fuel generalizing p todo with
  | zero => exact (Quiet.pure _).building
  | succ fuel ih =>
    unfold climb
    split
    · exact (Quiet.pure _).building
    refine (mkdir_building p).attempt.bind fun r => ?_
    split
    · exact (Quiet.pure _).building
    split
    · split
      · exact ih _ _
      · exact (Quiet.pure _).building
    · refine (dirThere_quiet _ _).building.bind fun there => ?_
      split
      · exact (Quiet.pure _).building
      · exact (Quiet.throw _).building

theorem mkdirs_building (paths : List Path) : Building (mkdirs paths) := by
  induction paths with
  | nil => exact (Quiet.pure _).building
  | cons p rest ih =>
    unfold mkdirs
    refine (mkdir_building p).attempt.bind fun r => ?_
    split
    · exact ih
    · refine (dirThere_quiet _ _).building.bind fun there => ?_
      split
      · exact ih
      · exact (Quiet.throw _).building

theorem createDirAll_building (p : Path) : Building (createDirAll p) := by
  unfold createDirAll
  split
  · exact (Quiet.pure _).building
  · exact (climb_building _ _ _).bind fun _ => mkdirs_building _

/-! ## Blocked paths -/

/-- Whether climbing from a path over missing directories comes to something that is there and is
    no directory. -/
def blockedFrom (d : Disk) : Nat → Path → Bool
  | 0, _ => false
  | fuel + 1, p =>
    if isTop p then false
    else match d.resolve .entry p with
      | .ok r => r.node.isSome && !d.isDir p
      | .error e => e.kind = .notFound && match p.parent? with
        | some parent => blockedFrom d fuel parent
        | none => false

/-- Whether nothing can be made at a path or above it because of something that is there. -/
def blocked (d : Disk) (p : Path) : Bool := d.blockedFrom (p.text.length + 1) p

/-- Directories still to make of which the first has nowhere to go. -/
def Lacking (d : Disk) : List Path → Prop
  | [] => True
  | p :: _ => ∃ e, d.resolve .entry p = .error e ∧ e.kind = .notFound

theorem outcome_mkdir_of_error {d : Disk} {p : Path} {e : IoError}
    (hr : d.resolve .entry p = .error e) : outcome (mkdir p) d = (.error e, d) := by
  unfold mkdir
  rw [outcome_bind, outcome_find, hr]

theorem outcome_mkdir_of_some {d : Disk} {p : Path} {r : Resolved}
    (hr : d.resolve .entry p = .ok r) (hn : r.node.isSome) :
    outcome (mkdir p) d = (.error (.system .fileExists), d) := by
  unfold mkdir
  rw [outcome_bind, outcome_find, hr]
  dsimp only
  rw [if_pos hn, outcome_fail]

theorem outcome_mkdir_of_none {d : Disk} {p : Path} {r : Resolved}
    (hr : d.resolve .entry p = .ok r) (hn : r.node.isSome = false) :
    outcome (mkdir p) d = (.ok (), d.set r.location .dir) := by
  unfold mkdir
  rw [outcome_bind, outcome_find, hr]
  dsimp only
  rw [if_neg (by simp [hn]), outcome_modify]

/-- Making a directory fails, or makes it where nothing was. -/
theorem mkdir_cases (p : Path) (d : Disk) :
    (∃ e, outcome (mkdir p) d = (.error e, d)) ∨
      ∃ r, d.resolve .entry p = .ok r ∧ r.node = none ∧
        outcome (mkdir p) d = (.ok (), d.set r.location .dir) := by
  cases hr : d.resolve .entry p with
  | error e => exact .inl ⟨e, outcome_mkdir_of_error hr⟩
  | ok r =>
    cases hn : r.node with
    | some n => exact .inl ⟨_, outcome_mkdir_of_some hr (Option.isSome_of_eq_some hn)⟩
    | none => exact .inr ⟨r, rfl, hn, outcome_mkdir_of_none hr (by rw [hn]; rfl)⟩

theorem outcome_dirThere (p : Path) (e : IoError) (d : Disk) :
    outcome (dirThere p e) d = (.ok (e.kind = .alreadyExists && d.isDir p), d) := rfl

/-- A step of a climb. -/
theorem outcome_climb {p : Path} (hp : isTop p = false) (fuel : Nat) (todo : List Path) (d : Disk) :
    outcome (climb (fuel + 1) p todo) d = match outcome (mkdir p) d with
      | (.ok _, d') => (.ok todo, d')
      | (.error e, d') =>
        if e.kind = .notFound then
          match p.parent? with
          | some parent => outcome (climb fuel parent (p :: todo)) d'
          | none => (.ok (p :: todo), d')
        else if e.kind = .alreadyExists && d'.isDir p then (.ok todo, d')
        else (.error e, d') := by
  rw [climb, if_neg (by simp [hp]), outcome_bind_of_ok (outcome_attempt _ _)]
  rcases outcome (mkdir p) d with ⟨r, d'⟩
  cases r with
  | ok u => rfl
  | error e =>
    dsimp only
    split
    · cases p.parent? <;> rfl
    · rw [outcome_bind_of_ok (outcome_dirThere _ _ _)]
      split <;> rfl

/-- A step on the way down. -/
theorem outcome_mkdirs_cons (p : Path) (rest : List Path) (d : Disk) :
    outcome (mkdirs (p :: rest)) d = match outcome (mkdir p) d with
      | (.ok _, d') => outcome (mkdirs rest) d'
      | (.error e, d') =>
        if e.kind = .alreadyExists && d'.isDir p then outcome (mkdirs rest) d'
        else (.error e, d') := by
  rw [mkdirs, outcome_bind_of_ok (outcome_attempt _ _)]
  rcases outcome (mkdir p) d with ⟨r, d'⟩
  cases r with
  | ok u => rfl
  | error e =>
    dsimp only
    rw [outcome_bind_of_ok (outcome_dirThere _ _ _)]
    split <;> rfl

/-- How climbing ends: it collides exactly if the path is blocked, and where nothing is made the
    first directory still to make cannot be made either. -/
theorem climb_cases (d : Disk) (fuel : Nat) (p : Path) (todo : List Path) (ht : Lacking d todo) :
    (d.blockedFrom fuel p = true ∧
      ∃ e, isCollision e ∧ outcome (climb fuel p todo) d = (.error e, d)) ∨
    (d.blockedFrom fuel p = false ∧ (NewDir d (outcome (climb fuel p todo) d).2 ∨
      (∃ e, ¬ isCollision e ∧ outcome (climb fuel p todo) d = (.error e, d)) ∨
      ∃ todo', Lacking d todo' ∧ outcome (climb fuel p todo) d = (.ok todo', d))) := by
  induction fuel generalizing p todo with
  | zero => exact .inr ⟨rfl, .inr (.inr ⟨todo, ht, rfl⟩)⟩
  | succ fuel ih =>
    -- The climb and `blockedFrom` look at the same paths.
    unfold blockedFrom
    cases htop : isTop p with
    | true =>
      rw [climb, if_pos htop]
      exact .inr ⟨rfl, .inr (.inr ⟨todo, ht, rfl⟩)⟩
    | false =>
      rw [outcome_climb htop]
      cases hr : d.resolve .entry p with
      | ok r =>
        cases hn : r.node.isSome with
        | false =>
          have hmade := outcome_mkdir_of_none hr hn
          rw [hmade]
          exact .inr ⟨by simp [hn], .inl (mkdir_newDir hmade)⟩
        | true =>
          rw [outcome_mkdir_of_some hr hn]
          -- Something is there: a directory ends the climb, anything else blocks it.
          have hkind : (IoError.system .fileExists).kind = .alreadyExists := rfl
          cases hdir : d.isDir p with
          | true => exact .inr ⟨by simp [hn], .inr (.inr ⟨todo, ht, by simp [hkind, hdir]⟩)⟩
          | false =>
            exact .inl ⟨by simp [hn], .system .fileExists, hkind, by simp [hkind, hdir]⟩
      | error e =>
        rw [outcome_mkdir_of_error hr]
        by_cases hfound : e.kind = .notFound
        -- There is nothing to make `p` in, so the climb goes on above it.
        · have hlack (rest : List Path) : Lacking d (p :: rest) := ⟨e, hr, hfound⟩
          cases hparent : p.parent? with
          | some parent => simpa [hfound, hparent] using ih parent (p :: todo) (hlack todo)
          | none => exact .inr ⟨by simp, .inr (.inr ⟨p :: todo, hlack todo, by simp [hfound]⟩)⟩
        · have hclear := (resolve_error d _ hr).1
          exact .inr ⟨by simp [hfound], .inr (.inl ⟨e, hclear, by simp [hfound, hclear]⟩)⟩

/-- Nothing is made where the first directory has nowhere to go. -/
theorem mkdirs_of_lacking {d : Disk} {todo : List Path} (ht : Lacking d todo) :
    outcome (mkdirs todo) d = (.ok (), d) ∨
      ∃ e, ¬ isCollision e ∧ outcome (mkdirs todo) d = (.error e, d) := by
  cases todo with
  | nil => exact .inl rfl
  | cons p rest =>
    -- The first directory has still nowhere to go, and that is no collision.
    obtain ⟨e, hr, hfound⟩ := ht
    have hclear : ¬ e.kind = .alreadyExists := by simp [hfound]
    refine .inr ⟨e, hclear, ?_⟩
    rw [outcome_mkdirs_cons, outcome_mkdir_of_error hr]
    simp [hclear]

/-- Making a directory with its parents collides and leaves no trace exactly if the path is
    blocked. -/
theorem createDirAll_collides_iff (p : Path) (d : Disk) :
    (∃ e, isCollision e ∧ outcome (createDirAll p) d = (.error e, d)) ↔ d.blocked p = true := by
  unfold createDirAll blocked
  by_cases htop : isTop p = true
  · rw [if_pos htop, blockedFrom, if_pos htop]
    constructor
    · rintro ⟨e, -, h⟩
      cases h
    · nofun
  rw [if_neg htop]
  rcases climb_cases d (p.text.length + 1) p [] trivial with ⟨hb, e, hc, h⟩ | ⟨hb, h⟩
  · rw [outcome_bind_of_error h, hb]
    exact ⟨fun _ => rfl, fun _ => ⟨e, hc, rfl⟩⟩
  · rw [hb]
    refine ⟨?_, nofun⟩
    rintro ⟨e, hc, he⟩
    rcases h with hnew | ⟨e', hclear, h⟩ | ⟨todo', hlack, h⟩
    · -- What the climb made is not taken away again.
      rcases hclimb : outcome (climb (p.text.length + 1) p []) d with ⟨r, d₁⟩
      rw [hclimb] at hnew
      cases r with
      | error e' =>
        rw [outcome_bind_of_error hclimb] at he
        cases he
        exact absurd rfl hnew.ne
      | ok todo =>
        rw [outcome_bind_of_ok hclimb] at he
        have hkeeps := (mkdirs_building todo).keeps d₁
        rw [he] at hkeeps
        exact absurd rfl (hnew.keep hkeeps).ne
    · rw [outcome_bind_of_error h] at he
      cases he
      exact absurd hc hclear
    · rw [outcome_bind_of_ok h] at he
      rcases mkdirs_of_lacking hlack with h' | ⟨e', hclear, h'⟩
      · rw [h'] at he
        cases he
      · rw [h'] at he
        cases he
        exact absurd hc hclear

end GameInstaller.Disk
