import GameInstaller.Disk.Basic

/-!
# Entries of a disk

What changing an entry does to the node at each location, and ways to compare two disks.

* `Alike`        the same node at every location
* `KeepsDirs`    no directory is lost
* `Grows`        no entry is lost
* `NewEntry`     something is where nothing was
* `outline`      a disk without the contents of its files
-/

namespace GameInstaller.Disk

/-! ## Changing an entry -/

theorem lookup_put (k l : Location) (n : Node) (entries : List (Location × Node)) :
    lookup k (put l n entries) = if k = l then some n else lookup k entries := by
  induction entries with
  | nil => by_cases h : k = l <;> simp [put, lookup, h, Ne.symm]
  | cons entry rest ih =>
    obtain ⟨j, m⟩ := entry
    -- The entry at `l` is replaced where it stands; all others are passed by.
    by_cases hj : j = l
    · subst hj
      by_cases h : k = j
      · simp [put, lookup, h]
      · simp [put, lookup, h, Ne.symm h]
    · simp only [put, if_neg hj, lookup, ih]
      by_cases hk : j = k
      · subst hk
        simp [hj]
      · simp [hk]

theorem put_put (l : Location) (n m : Node) (entries : List (Location × Node)) :
    put l m (put l n entries) = put l m entries := by
  induction entries with
  | nil => simp [put]
  | cons entry rest ih =>
    obtain ⟨j, n'⟩ := entry
    by_cases hj : j = l <;> simp [put, hj, ih]

theorem lookup_filter (k l : Location) (entries : List (Location × Node)) :
    lookup k (entries.filter fun (j, _) => j ≠ l) = if k = l then none else lookup k entries := by
  induction entries with
  | nil => simp [lookup]
  | cons entry rest ih =>
    obtain ⟨j, m⟩ := entry
    by_cases hj : j = l
    · subst hj
      simp only [List.filter_cons, ne_eq, not_true_eq_false, decide_false, Bool.false_eq_true,
        ↓reduceIte, lookup]
      rw [ih]
      by_cases hk : k = j
      · simp [hk]
      · simp [hk, Ne.symm hk]
    · simp only [List.filter_cons, ne_eq, hj, not_false_eq_true, decide_true, ↓reduceIte, lookup, ih]
      by_cases hk : j = k
      · subst hk
        simp [hj]
      · simp [hk]

variable (d : Disk)

@[simp] theorem find?_nil : d.find? [] = some .dir := if_pos rfl

theorem find?_set (l k : Location) (n : Node) :
    (d.set l n).find? k = if k = [] then some .dir else if k = l then some n else d.find? k := by
  by_cases hk : k = []
  · simp [hk]
  · simp [find?, set, hk, lookup_put]

theorem find?_set_of_ne {l k : Location} (hk : k ≠ l) (n : Node) :
    (d.set l n).find? k = d.find? k := by
  rw [find?_set, if_neg hk]
  split
  · subst k
    exact (find?_nil d).symm
  · rfl

/-- Something takes the place of what was put there. -/
theorem set_set (l : Location) (n m : Node) : (d.set l n).set l m = d.set l m := by
  simp only [set, put_put]

theorem find?_erase (l k : Location) :
    (d.erase l).find? k = if k = [] then some .dir else if k = l then none else d.find? k := by
  by_cases hk : k = []
  · simp [hk]
  · simp only [find?, erase, hk, ↓reduceIte, lookup_filter]

/-! ## Comparing disks -/

/-- The same node at every location. -/
def Alike (d d' : Disk) : Prop := ∀ l, d.find? l = d'.find? l

theorem Alike.refl : Alike d d := fun _ => rfl

/-- Directories stay directories. -/
def KeepsDirs (d d' : Disk) : Prop := ∀ l, d.find? l = some .dir → d'.find? l = some .dir

/-- Nothing goes away. -/
def Grows (d d' : Disk) : Prop := ∀ l, (d.find? l).isSome → (d'.find? l).isSome

/-- Something is where nothing was. -/
def NewEntry (d d' : Disk) : Prop := ∃ l, d.find? l = none ∧ (d'.find? l).isSome

/-- A directory is where nothing was. -/
def NewDir (d d' : Disk) : Prop := ∃ l, d.find? l = none ∧ d'.find? l = some .dir

section Compare

variable {d} {d₁ d₂ : Disk}

theorem KeepsDirs.refl : KeepsDirs d d := fun _ h => h

theorem KeepsDirs.trans (h : KeepsDirs d d₁) (h' : KeepsDirs d₁ d₂) : KeepsDirs d d₂ :=
  fun l hl => h' l (h l hl)

/-- A new directory is still there when directories are kept. -/
theorem NewDir.keep (h : NewDir d d₁) (h' : KeepsDirs d₁ d₂) : NewDir d d₂ := by
  obtain ⟨l, hnone, hdir⟩ := h
  exact ⟨l, hnone, h' l hdir⟩

/-- A node may be put where no directory is. -/
theorem keepsDirs_set {l : Location} (hl : d.find? l ≠ some .dir) (n : Node) :
    KeepsDirs d (d.set l n) := by
  intro k hk
  rw [find?_set]
  split
  · rfl
  split
  · subst k
    exact absurd hk hl
  · exact hk

/-- What is no directory may be taken away. -/
theorem keepsDirs_erase {l : Location} (hl : d.find? l ≠ some .dir) : KeepsDirs d (d.erase l) := by
  intro k hk
  rw [find?_erase]
  split
  · rfl
  split
  · subst k
    exact absurd hk hl
  · exact hk

theorem Grows.refl : Grows d d := fun _ h => h

theorem Grows.trans (h : Grows d d₁) (h' : Grows d₁ d₂) : Grows d d₂ := fun l hl => h' l (h l hl)

/-- A new entry is still there when nothing goes away. -/
theorem NewEntry.keep (h : NewEntry d d₁) (h' : Grows d₁ d₂) : NewEntry d d₂ := by
  obtain ⟨l, hnone, hsome⟩ := h
  exact ⟨l, hnone, h' l hsome⟩

theorem NewDir.newEntry (h : NewDir d d₁) : NewEntry d d₁ := by
  obtain ⟨l, hnone, hdir⟩ := h
  exact ⟨l, hnone, by rw [hdir]; rfl⟩

theorem Alike.not_newEntry (h : Alike d d₁) : ¬ NewEntry d d₁ := by
  rintro ⟨l, hnone, hsome⟩
  rw [← h l, hnone] at hsome
  cases hsome

/-- A disk that is like an earlier one has no directory that was not there in between. -/
theorem Alike.not_newDir (h : Alike d d₂) (hk : KeepsDirs d d₁) : ¬ NewDir d₁ d₂ := by
  rintro ⟨l, hnone, hdir⟩
  have := hk l ((h l).trans hdir)
  rw [hnone] at this
  cases this

theorem NewDir.ne (h : NewDir d d₁) : d₁ ≠ d := by
  rintro rfl
  obtain ⟨l, hnone, hdir⟩ := h
  rw [hnone] at hdir
  cases hdir

end Compare

/-! ## Outlines -/

/-- A node without content. -/
def Node.outline : Node → Node
  | file .. => file ByteArray.empty 0 none
  | n => n

@[simp] theorem Node.isDir_outline (n : Node) : n.outline.isDir = n.isDir := by cases n <;> rfl

/-- A disk without the contents of its files. -/
def outline : Disk := { d with entries := d.entries.map fun (k, n) => (k, n.outline) }

@[simp] theorem outline_working : d.outline.working = d.working := rfl

theorem lookup_map (f : Node → Node) (l : Location) (entries : List (Location × Node)) :
    lookup l (entries.map fun (k, n) => (k, f n)) = (lookup l entries).map f := by
  induction entries with
  | nil => rfl
  | cons entry rest ih =>
    obtain ⟨k, n⟩ := entry
    by_cases hk : k = l <;> simp [lookup, hk, ih]

theorem find?_outline (l : Location) : d.outline.find? l = (d.find? l).map Node.outline := by
  by_cases hl : l = []
  · simp [hl, Node.outline]
  · simp [find?, outline, hl, lookup_map]

theorem children_outline (l : Location) : d.outline.children l = d.children l := by
  simp [children, outline, Function.comp_def]

/-- Outlines tell where directories are. -/
theorem find?_eq_dir_iff_outline (l : Location) :
    d.find? l = some .dir ↔ d.outline.find? l = some .dir := by
  rw [find?_outline]
  cases d.find? l with
  | none => simp
  | some n => cases n <;> simp [Node.outline]

theorem isSome_find?_outline (l : Location) : (d.outline.find? l).isSome = (d.find? l).isSome := by
  rw [find?_outline, Option.isSome_map]

theorem keepsDirs_of_outline {d d' : Disk} (h : d'.outline = d.outline) : KeepsDirs d d' := by
  intro l hl
  rw [find?_eq_dir_iff_outline] at hl ⊢
  rwa [h]

theorem grows_of_outline {d d' : Disk} (h : d'.outline = d.outline) : Grows d d' := by
  intro l hl
  rwa [← isSome_find?_outline, h, isSome_find?_outline]

/-- What is new hangs on the outlines only. -/
theorem newEntry_of_outline {d₀ d d' : Disk} (h : d.outline = d₀.outline) (hn : NewEntry d d') :
    NewEntry d₀ d' := by
  obtain ⟨l, hnone, hsome⟩ := hn
  refine ⟨l, ?_, hsome⟩
  have : (d₀.find? l).isSome = false := by
    rw [← isSome_find?_outline, ← h, isSome_find?_outline, hnone]
    rfl
  simpa using this

theorem map_outline_put {l : Location} {m n : Node} (hn : n.outline = m.outline)
    {entries : List (Location × Node)} (hl : lookup l entries = some m) :
    (put l n entries).map (fun (k, n) => (k, n.outline)) =
      entries.map fun (k, n) => (k, n.outline) := by
  induction entries with
  | nil => simp [lookup] at hl
  | cons entry rest ih =>
    obtain ⟨k, j⟩ := entry
    by_cases hk : k = l
    · simp only [lookup, hk, ↓reduceIte, Option.some.injEq] at hl
      simp [put, hk, hn, hl]
    · simp only [lookup, if_neg hk] at hl
      simp [put, hk, ih hl]

/-- Another content for a file leaves the outline. -/
theorem outline_setContent {l : Location} (hl : l ≠ []) {c : ByteArray} {m : Nat}
    {shared : Option Nat} (hf : d.find? l = some (.file c m shared)) (content : ByteArray)
    (mode : Nat) : (d.setContent l content mode shared).outline = d.outline := by
  cases shared with
  | none =>
    simp only [find?, if_neg hl] at hf
    have hput := map_outline_put (n := .file content mode none) (m := .file c m none) rfl hf
    exact congrArg (fun entries => ({ d with entries } : Disk)) hput
  | some id =>
    simp only [setContent, outline, List.map_map]
    congr 1
    -- Only files with this link number change, and only in their content.
    refine List.map_congr_left fun (k, n) _ => ?_
    simp only [Function.comp_apply]
    split
    · split <;> rfl
    · rfl

/-! ## Additions -/

/-- What adding to a disk can come to: nothing, an entry where none was, or another content of a
    file. -/
inductive Addition (d : Disk) : Disk → Prop
  | same : Addition d d
  | entry {l : Location} (hl : l ≠ []) (hnone : d.find? l = none) (n : Node) : Addition d (d.set l n)
  | content {l : Location} (hl : l ≠ []) {c : ByteArray} {m : Nat} {shared : Option Nat}
      (hfile : d.find? l = some (.file c m shared)) (content : ByteArray) (mode : Nat) :
      Addition d (d.setContent l content mode shared)

namespace Addition

variable {d d' : Disk}

theorem grows (h : Addition d d') : Grows d d' := by
  cases h with
  | same => exact .refl
  | entry hl hnone n =>
    intro k hk
    rw [find?_set]
    split
    · rfl
    split
    · rfl
    · exact hk
  | content hl hfile content mode => exact grows_of_outline (outline_setContent d hl hfile _ _)

theorem keepsDirs (h : Addition d d') : KeepsDirs d d' := by
  cases h with
  | same => exact .refl
  | entry hl hnone n => exact keepsDirs_set (by simp [hnone]) n
  | content hl hfile content mode => exact keepsDirs_of_outline (outline_setContent d hl hfile _ _)

/-- An addition that makes no entry leaves the outline. -/
theorem outline_or_newEntry (h : Addition d d') : d'.outline = d.outline ∨ NewEntry d d' := by
  cases h with
  | same => exact .inl rfl
  | @entry l hl hnone n => exact .inr ⟨l, hnone, by rw [find?_set, if_neg hl, if_pos rfl]; rfl⟩
  | content hl hfile content mode => exact .inl (outline_setContent d hl hfile _ _)

end Addition

end GameInstaller.Disk
