import GameInstaller.Proofs.Install.Recording
import GameInstaller.Proofs.Path.Splitting

/-!
# The entry that `write_config` saves

The step splits the path of an executable and asks the store once, or fails and asks it nothing.  The
path is that of the recipe with its variables replaced, and then the variables in the values.

* `namedPath`  the executable that a recipe names, its variables replaced once
* `SavesAt`    the step saves the entry whose executable is at a path

## Key results

- `expandChars_eq_self`: a text that refers to no variable stays as it is
- `savesAt_iff`: the step saves at the paths that are split like the one it computes
- `writeConfig_accounts`: what the step saves
- `exists_value_expanded`: it need not be at the executable that the recipe names
-/

namespace GameInstaller

variable {σ : Type}

/-! ## Texts without references -/

/-- A text that refers to no variable stays as it is. -/
theorem Environment.expandChars_eq_self {vars : Environment} {cs : List Char}
    (h : ∀ name value, vars.get? name = some value → ¬ '$' :: name.toList <:+: cs) :
    vars.expandChars cs = cs := by
  fun_induction Environment.expandChars vars cs with
  | case1 => rfl
  | case2 s r hstart ih =>
    have hsplit := List.takeWhile_append_dropWhile (p := isVariableChar) (l := r)
    have hunknown : vars.get? (String.ofList (s :: r.takeWhile isVariableChar)) = none := by
      rw [Option.eq_none_iff_forall_ne_some]
      intro value hvalue
      refine h _ value hvalue (List.IsPrefix.isInfix ⟨r.dropWhile isVariableChar, ?_⟩)
      rw [String.toList_ofList, List.cons_append, List.cons_append, hsplit]
    rw [Environment.reference, hunknown, ih fun name value hvalue hin => h name value hvalue ?_]
    · rw [List.cons_append, List.cons_append, hsplit]
    · refine hin.trans (List.IsSuffix.isInfix ⟨'$' :: s :: r.takeWhile isVariableChar, ?_⟩)
      rw [List.cons_append, List.cons_append, hsplit]
  | case3 s r hstart ih | case4 c r _ ih =>
    rw [ih fun name value hvalue hin =>
      h name value hvalue (hin.trans (List.suffix_cons _ _).isInfix)]

/-! ## What the step asks for -/

/-- The executable that a recipe names: its variables are replaced once, the start of a file URL is
    dropped, and a relative path is one in the directory of the game. -/
def Context.namedPath (c : Context) (g : Game) (file : String) : Path :=
  c.gameDir / ⟨dropFileUrl (c.text g file)⟩

/-- The executable whose entry is saved: variables are replaced in the values as well. -/
def Context.savedPath (c : Context) (g : Game) (file : String) : Path :=
  c.targetPath g (dropFileUrl (c.text g file))

/-- The entry of an executable. -/
def Game.entryAt (g : Game) (dir : Path) (name : String) : GameEntry := ⟨dir, name, g.name, g.runner⟩

/-- What the step makes of the store's answer. -/
def Game.saveAnswer (g : Game) (answer : Except StoreError Unit) : Applied :=
  answer.mapError fun e => .new .config (s!"cannot save config for '{g.slug}': " ++ e.message)

theorem Host.writeConfig_of_some (h : Host σ) (g : Game) {p dir : Path} {name : String}
    (hp : p.split? = some (dir, name)) (calls : List Request) (s : σ) :
    (h.recorded.writeConfig g p).run (s, calls) =
      (g.saveAnswer ((h.saveEntry g.slug (g.entryAt dir name)).run s).1,
        (((h.saveEntry g.slug (g.entryAt dir name)).run s).2,
          calls ++ [.saveEntry g.slug (g.entryAt dir name)])) := by
  obtain ⟨hparent, hname⟩ := Path.split?_eq_some_iff.mp hp
  have hsave : (h.recorded.saveEntry g.slug (g.entryAt dir name)).run (s, calls) =
      (((h.saveEntry g.slug (g.entryAt dir name)).run s).1,
        (((h.saveEntry g.slug (g.entryAt dir name)).run s).2,
          calls ++ [.saveEntry g.slug (g.entryAt dir name)])) := rfl
  unfold Host.writeConfig
  rw [hparent, hname]
  dsimp only
  rw [StateT.run_bind, show (⟨dir, name, g.name, g.runner⟩ : GameEntry) = g.entryAt dir name from rfl,
    hsave]
  cases ((h.saveEntry g.slug (g.entryAt dir name)).run s).1 with
  | ok u => rfl
  | error e => rfl

theorem Host.writeConfig_of_none (h : Host σ) (g : Game) {p : Path} (hp : p.split? = none) :
    h.writeConfig g p =
      pure (.error (.new .config s!"'{p.text}' does not name an executable")) := by
  unfold Path.split? at hp
  unfold Host.writeConfig
  split
  · rename_i hparent hname
    rw [hparent, hname] at hp
    cases hp
  · rfl

/-! ## What the step saves -/

/-- The step saves the entry of the executable at `t`.  Where this splits into a directory and a name,
    the store is asked once, for the entry of these, and its answer is that of the step; where it does
    not, the step fails and the store is not asked.  Failures are of the kind `config`. -/
structure SavesAt (h : Host σ) (c : Context) (g : Game) (file : String) (s : σ) (t : Path) : Prop where
  named : ∀ dir name, t.parent? = some dir → t.fileName? = some name →
    (dir.child name).components = t.components ∧
      ((Operation.writeConfig file).apply h.recorded c g).run (s, []) =
        (g.saveAnswer ((h.saveEntry g.slug (g.entryAt dir name)).run s).1,
          (((h.saveEntry g.slug (g.entryAt dir name)).run s).2,
            [.saveEntry g.slug (g.entryAt dir name)]))
  unnamed : t.parent? = none ∨ t.fileName? = none → ∃ message,
    ((Operation.writeConfig file).apply h.recorded c g).run (s, []) =
      (.error (.new .config message), (s, []))

section

variable (h : Host σ) (c : Context) (g : Game) (file : String) (s : σ)

theorem savesAt_savedPath : SavesAt h c g file s (c.savedPath g file) where
  named dir name hparent hname := by
    have hsplit := Path.split?_eq_some_iff.mpr ⟨hparent, hname⟩
    exact ⟨Path.components_of_split? hsplit, h.writeConfig_of_some g hsplit [] s⟩
  unnamed hnone := by
    have hrun := h.recorded.writeConfig_of_none g (Path.split?_eq_none_iff.mpr hnone)
    refine ⟨s!"'{(c.savedPath g file).text}' does not name an executable", ?_⟩
    change (h.recorded.writeConfig g (c.savedPath g file)).run (s, []) = _
    rw [hrun]
    rfl

/-- The calls that the store gets for the executable at a path. -/
def Game.requestsAt (g : Game) (t : Path) : List Request :=
  match t.split? with
  | some (dir, name) => [.saveEntry g.slug (g.entryAt dir name)]
  | none => []

/-- The calls tell how the path was split. -/
theorem requestsAt_eq_iff {t t' : Path} : g.requestsAt t = g.requestsAt t' ↔ t.split? = t'.split? := by
  unfold Game.requestsAt
  cases t.split? <;> cases t'.split? <;> simp [Game.entryAt, Prod.ext_iff]

variable {h c g file s} in
theorem SavesAt.requests {t : Path} (ht : SavesAt h c g file s t) :
    (((Operation.writeConfig file).apply h.recorded c g).run (s, [])).2.2 = g.requestsAt t := by
  unfold Game.requestsAt
  cases hsplit : t.split? with
  | some parts =>
    obtain ⟨dir, name⟩ := parts
    obtain ⟨hparent, hname⟩ := Path.split?_eq_some_iff.mp hsplit
    rw [(ht.named dir name hparent hname).2]
  | none =>
    obtain ⟨message, hrun⟩ := ht.unnamed (Path.split?_eq_none_iff.mp hsplit)
    rw [hrun]

/-- The step saves at the paths that are split like the one it computes, and at no other. -/
theorem savesAt_iff (t : Path) :
    SavesAt h c g file s t ↔ t.split? = (c.savedPath g file).split? := by
  have hsaved := savesAt_savedPath h c g file s
  constructor
  · intro ht
    rw [← requestsAt_eq_iff g, ← ht.requests, hsaved.requests]
  · intro hsplit
    exact {
      named := fun dir name hparent hname => by
        have ht := Path.split?_eq_some_iff.mpr ⟨hparent, hname⟩
        obtain ⟨hparent', hname'⟩ := Path.split?_eq_some_iff.mp (hsplit ▸ ht)
        exact ⟨Path.components_of_split? ht, (hsaved.named dir name hparent' hname').2⟩
      unnamed := fun hnone => by
        have ht := Path.split?_eq_none_iff.mpr hnone
        exact hsaved.unnamed (Path.split?_eq_none_iff.mp (hsplit ▸ ht)) }

/-- Values that refer to no variable are not changed any more. -/
theorem savedPath_eq_namedPath (hplain : ∀ name value, (c.scope g).get? name = some value →
    ¬ '$' :: name.toList <:+: (dropFileUrl (c.text g file)).toList) :
    c.savedPath g file = c.namedPath g file := by
  have hsame : c.text g (dropFileUrl (c.text g file)) = dropFileUrl (c.text g file) := by
    unfold Context.text at hplain ⊢
    rw [Environment.expand, Environment.expandChars_eq_self hplain, String.ofList_toList]
  rw [Context.savedPath, Context.targetPath, hsame, Context.namedPath]

/-- What the step saves, from the state `s` of its host. -/
structure ConfigAccount : Prop where
  /-- The entry is that of the path in which variables are replaced a second time. -/
  saved : SavesAt h c g file s (c.savedPath g file)
  /-- It is that of the executable which the recipe names exactly if both are split alike. -/
  named_iff : SavesAt h c g file s (c.namedPath g file) ↔
    (c.namedPath g file).split? = (c.savedPath g file).split?
  /-- So it is if the path, with its variables replaced once, refers to no variable. -/
  plain : (∀ name value, (c.scope g).get? name = some value →
    ¬ '$' :: name.toList <:+: (dropFileUrl (c.text g file)).toList) →
      SavesAt h c g file s (c.namedPath g file)

/-- What `write_config` saves, for every host, context, game and parameter. -/
theorem writeConfig_accounts : ConfigAccount h c g file s where
  saved := savesAt_savedPath h c g file s
  named_iff := savesAt_iff h c g file s _
  plain hplain := by
    rw [← savedPath_eq_namedPath c g file hplain]
    exact savesAt_savedPath h c g file s

end

/-- A name with a dollar sign is replaced by what it refers to. -/
theorem exists_value_expanded : ∃ (c : Context) (g : Game) (file : String),
    ∀ (σ : Type) (h : Host σ) (s : σ), ¬ SavesAt h c g file s (c.namedPath g file) := by
  let c : Context := .ofGameDir ⟨"/games/baz"⟩ none
  let g : Game := ⟨"baz", "$RUNNER", "linux"⟩
  have hnamed : c.namedPath g "/opt/$NAME/run" = ⟨"/opt/$RUNNER/run"⟩ := by decide +kernel
  have hsaved : c.savedPath g "/opt/$NAME/run" = ⟨"/opt/linux/run"⟩ := by decide +kernel
  refine ⟨c, g, "/opt/$NAME/run", fun σ h s hsaves => ?_⟩
  rw [savesAt_iff, hnamed, hsaved] at hsaves
  exact absurd hsaves (by decide)

end GameInstaller
