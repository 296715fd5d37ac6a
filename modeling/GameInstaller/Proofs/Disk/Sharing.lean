import GameInstaller.Proofs.Disk.Contents

/-!
# Files under several names

When directories and files are made where nothing was, and contents of files are changed, no link
comes in the way of a path.  So there is one location at most that the path can come to lead to.

Whatever name a file is written under, its content changes under all of its names.  A file at a
location whose names agree on its content keeps this content, or gets the one that is written.

* `AddsNoLink`  entries were added and contents changed, but no link was added
* `LeadsTo`     a path leads to a location, if it leads anywhere
* `Heads`       it leads to no other location as long as no link is added
* `Agrees`      the names of the file at a location agree on its content
* `Spares`      nothing was done to the file that a path heads for, nor to the path

## Key results

- `update_addsNoLink`, `AddsDirs.addsNoLink`: writing to files and making directories
- `heads_of_resolve`: a path that leads somewhere heads there
- `update_agrees`: what writing to a file does to the file at any location
-/

namespace GameInstaller.Disk

/-- Links are in the outline as they are on the disk. -/
theorem find?_outline_eq_link {d : Disk} {l : Location} {target : String} :
    d.outline.find? l = some (.link target) ↔ d.find? l = some (.link target) := by
  rw [find?_outline]
  cases d.find? l with
  | none => simp
  | some n => cases n <;> simp [Node.outline]

/-- Everything is where it was, up to the contents of files, and no link was added. -/
structure AddsNoLink (d d' : Disk) : Prop extends Extends d d' where
  links : ∀ l target, d'.find? l = some (.link target) → d.find? l = some (.link target)

namespace AddsNoLink

variable {d d₁ d₂ : Disk}

theorem refl : AddsNoLink d d := ⟨.refl, fun _ _ h => h⟩

theorem trans (h : AddsNoLink d d₁) (h' : AddsNoLink d₁ d₂) : AddsNoLink d d₂ where
  toExtends := h.toExtends.trans h'.toExtends
  links l target hl := h.links l target (h'.links l target hl)

theorem of_outline (h : d₁.outline = d.outline) : AddsNoLink d d₁ where
  toExtends := .of_outline h
  links l target hl := by rwa [← find?_outline_eq_link, h, find?_outline_eq_link] at hl

/-- A file may be put where nothing is. -/
theorem set_file {l : Location} (hl : d.find? l = none) (content : ByteArray) (mode : Nat)
    (shared : Option Nat) : AddsNoLink d (d.set l (.file content mode shared)) where
  toExtends := .set hl _
  links k target hk := by
    rw [find?_set] at hk
    split at hk
    · cases hk
    split at hk
    · cases hk
    · exact hk

end AddsNoLink

theorem AddsDirs.addsNoLink {d d' : Disk} (h : AddsDirs d d') : AddsNoLink d d' where
  toExtends := h.extending
  links l target hl := by
    rcases h.dirs l with hsame | ⟨-, hdir⟩
    · rw [← hsame, hl]
    · rw [hdir] at hl
      cases hl

/-- A file that is written to was there, or is made. -/
theorem update_addsNoLink (p : Path) (change : ByteArray → ByteArray) (mode : Nat) (d : Disk) :
    AddsNoLink d (outcome (update p change mode) d).2 := by
  unfold update
  rw [outcome_bind, outcome_find]
  cases hr : d.resolve .follow p with
  | error e => exact .refl
  | ok r =>
    dsimp only
    split
    · rename_i hnode
      obtain ⟨-, hne, hfind⟩ := resolve_entry d _ hr (by simp [hnode])
      exact .of_outline (outline_setContent d hne (hfind.trans hnode) _ _)
    · exact .refl
    · rename_i hnode
      split
      · exact .refl
      · obtain ⟨-, -, hfind⟩ := resolve_entry d _ hr (by simp [hnode])
        exact .set_file (hfind.trans hnode) _ _ _

/-! ## Where paths lead -/

/-- A walk that leads somewhere leads there on every disk where everything is that it met, and where
    no links are in its way that it did not meet. -/
theorem walk_location {d d' : Disk} {links : Nat} {cur : Location} {slash : Bool}
    {names : List String} {r r' : Resolved}
    (hsub : ∀ l n, d.find? l = some n → d'.find? l = some n)
    (hlinks : ∀ l target, d'.find? l = some (.link target) → d.find? l = some (.link target))
    (h : walk d .follow links cur slash names = .ok r)
    (h' : walk d' .follow links cur slash names = .ok r') : r'.location = r.location := by
  by_cases hr : r.node = none
  swap
  · rw [walk_mono hsub h hr] at h'
    cases h'
    rfl
  fun_induction walk d .follow links cur slash names with
  | case1 =>
    cases h
    cases hr
  | case2 _ _ _ _ ih | case3 _ _ _ _ _ ih =>
    rw [walk] at h'
    exact ih h (by simpa using h')
  | case4 | case6 | case10 | case12 => cases h
  | case5 _ _ _ _ _ hdot hup hlen here hhere hrest =>
    -- The walk led to nothing; if there is something now, it is no link.
    cases h
    rw [walk_cons _ _ hdot hup hlen] at h'
    cases hn : d'.find? here with
    | none =>
      rw [hn] at h'
      simp only [walkAt, hrest] at h'
      cases h'
      rfl
    | some n =>
      rw [hn] at h'
      cases n with
      | dir =>
        simp only [walkAt, hrest] at h'
        cases h'
        rfl
      | file content mode shared =>
        simp only [walkAt] at h'
        split at h'
        · cases h'
          rfl
        · cases h'
      | link target =>
        rw [hlinks _ _ hn] at hhere
        cases hhere
  | case7 | case9 | case11 =>
    cases h
    cases hr
  | case8 _ _ _ _ _ hdot hup hlen here hhere hrest ih =>
    rw [walk_cons _ _ hdot hup hlen, hsub _ _ hhere] at h'
    simp only [walkAt, hrest] at h'
    exact ih h h'
  | case13 _ _ _ _ hdot hup hlen here target hhere hrest links ih =>
    rw [walk_cons _ _ hdot hup hlen, hsub _ _ hhere] at h'
    simp only [walkAt, hrest] at h'
    exact ih h h'

/-- A path that leads somewhere leads there still when no link was added, if it leads anywhere. -/
theorem AddsNoLink.location {d d' : Disk} (h : AddsNoLink d d') {p : Path} {r r' : Resolved}
    (hr : d.resolve .follow p = .ok r) (hr' : d'.resolve .follow p = .ok r') :
    r'.location = r.location := by
  -- Where paths lead hangs on the outlines only, and on these everything is the same.
  have houtline : d.outline.resolve .follow p = .ok r.outline := by
    rw [resolve_outline, hr]
    rfl
  have houtline' : d'.outline.resolve .follow p = .ok r'.outline := by
    rw [resolve_outline, hr']
    rfl
  have hlinks (l : Location) (target : String) (hl : d'.outline.find? l = some (.link target)) :
      d.outline.find? l = some (.link target) :=
    find?_outline_eq_link.mpr (h.links l target (find?_outline_eq_link.mp hl))
  rcases resolve_cases p with ⟨e, -, -, he⟩ | hwalk
  · rw [he] at hr
    cases hr
  · rw [hwalk, mapError_eq_ok, outline_working] at houtline houtline'
    rw [h.working] at houtline'
    have hlocation := walk_location h.keeps hlinks houtline houtline'
    exact hlocation

/-- A path leads to this location, if it leads anywhere. -/
def LeadsTo (d : Disk) (p : Path) (l : Location) : Prop :=
  ∀ r, d.resolve .follow p = .ok r → r.location = l

/-- A path leads to this location, if it leads anywhere, and so it does as long as no link is
    added. -/
def Heads (d : Disk) (p : Path) (l : Location) : Prop := ∀ d', AddsNoLink d d' → LeadsTo d' p l

namespace Heads

variable {d d' : Disk} {p : Path} {l : Location}

theorem leadsTo (h : Heads d p l) : LeadsTo d p l := h d .refl

theorem addsNoLink (h : Heads d p l) (hd : AddsNoLink d d') : Heads d' p l :=
  fun d'' hd' => h d'' (hd.trans hd')

end Heads

/-- A path that leads somewhere heads there. -/
theorem heads_of_resolve {d : Disk} {p : Path} {r : Resolved} (hr : d.resolve .follow p = .ok r) :
    Heads d p r.location := fun _ hd _ hr' => hd.location hr hr'

/-! ## Names of one file -/

/-- The file at a location has the same content under all of its names. -/
def Agrees (d : Disk) (l : Location) : Prop :=
  ∀ ⦃content mode id k content' mode'⦄, d.find? l = some (.file content mode (some id)) →
    d.find? k = some (.file content' mode' (some id)) → content' = content

/-- Nothing was done to the file at a location, under any of its names, and nothing to the path that
    heads there. -/
structure Spares (d d' : Disk) (p : Path) (l : Location) : Prop where
  find? : d'.find? l = d.find? l
  agrees : d.Agrees l → d'.Agrees l
  heads : Heads d p l → Heads d' p l
  fileAt : FileAt d p l → FileAt d' p l

variable {d d' : Disk} {l k : Location}

theorem agrees_of_none (h : d.find? l = none) : d.Agrees l := fun _ _ _ _ _ _ hl _ => by
  rw [h] at hl
  cases hl

/-- Making directories does nothing to a file that is there. -/
theorem AddsDirs.agrees (h : AddsDirs d d') (hl : d.Agrees l) : d'.Agrees l := by
  have hfile {j : Location} {content : ByteArray} {mode : Nat} {shared : Option Nat}
      (hj : d'.find? j = some (.file content mode shared)) :
      d.find? j = some (.file content mode shared) := by
    rcases h.dirs j with hsame | ⟨-, hdir⟩
    · rw [← hsame, hj]
    · rw [hdir] at hj
      cases hj
  exact fun _ _ _ _ _ _ hl' hk => hl (hfile hl') (hfile hk)

theorem Spares.refl {p : Path} : Spares d d p l := ⟨rfl, id, id, id⟩

/-- A file with no other name takes no content from others. -/
theorem Agrees.set (h : d.Agrees l) (j : Location) (content : ByteArray) (mode : Nat) :
    (d.set j (.file content mode none)).Agrees l := by
  have hold {i : Location} {content' : ByteArray} {mode' id : Nat}
      (hi : (d.set j (.file content mode none)).find? i = some (.file content' mode' (some id))) :
      d.find? i = some (.file content' mode' (some id)) := by
    rw [find?_set] at hi
    split at hi
    · cases hi
    split at hi
    · cases hi
    · exact hi
  exact fun _ _ _ _ _ _ hl hk => h (hold hl) (hold hk)

/-- The content of a file is changed under all of its names. -/
theorem Agrees.setContent_shared (h : d.Agrees l) (j : Location) (content : ByteArray)
    (mode id : Nat) : (d.setContent j content mode (some id)).Agrees l := by
  -- What a node was before it was refilled.
  have hold {i : Location} {content' : ByteArray} {mode' id' : Nat}
      (hi : (d.setContent j content mode (some id)).find? i =
        some (.file content' mode' (some id'))) :
      (id' = id ∧ content' = content) ∨
        (id' ≠ id ∧ d.find? i = some (.file content' mode' (some id'))) := by
    rw [find?_setContent_shared] at hi
    obtain ⟨n, hn, hrefill⟩ := Option.map_eq_some_iff.mp hi
    cases n with
    | dir | link target => cases hrefill
    | file content'' mode'' shared =>
      cases shared with
      | none => cases hrefill
      | some i =>
        by_cases hi : i = id
        · rw [Node.refill, if_pos hi] at hrefill
          cases hrefill
          exact .inl ⟨rfl, rfl⟩
        · rw [Node.refill, if_neg hi] at hrefill
          cases hrefill
          exact .inr ⟨hi, hn⟩
  intro content₁ mode₁ id₁ k content₂ mode₂ hl hk
  rcases hold hl with ⟨hid, hcontent⟩ | ⟨hid, hl'⟩
  · rcases hold hk with ⟨-, hcontent'⟩ | ⟨hid', -⟩
    · rw [hcontent, hcontent']
    · exact absurd hid hid'
  · rcases hold hk with ⟨hid', -⟩ | ⟨-, hk'⟩
    · exact absurd hid' hid
    · exact h hl' hk'

/-- Where the content of a file is changed, the file at a location is another one, or its content is
    changed. -/
theorem bytesAt_setContent {content : ByteArray} {mode mode' : Nat} {shared : Option Nat}
    (hl : d.Agrees l) (hk : k ≠ []) (hfile : d.find? k = some (.file content mode shared))
    (change : ByteArray → ByteArray) :
    (d.setContent k (change content) mode' shared).bytesAt l = d.bytesAt l ∨
      (d.setContent k (change content) mode' shared).bytesAt l = change (d.bytesAt l) := by
  by_cases hlk : l = k
  · subst hlk
    refine .inr ?_
    rw [bytesAt, bytesAt, find?_setContent_self hk hfile, hfile]
  · cases shared with
    | none => exact .inl (by rw [setContent, bytesAt, bytesAt, find?_set_of_ne _ hlk])
    | some id =>
      rw [bytesAt, bytesAt, find?_setContent_shared]
      cases hn : d.find? l with
      | none => exact .inl rfl
      | some n =>
        cases n with
        | dir | link target => exact .inl rfl
        | file c m shared =>
          cases shared with
          | none => exact .inl rfl
          | some i =>
            by_cases hi : i = id
            · -- It is the same file under another name.
              subst hi
              obtain rfl := hl hn hfile
              refine .inr ?_
              simp [Node.refill]
            · refine .inl ?_
              simp [Node.refill, hi]

/-- Writing to a file, under whatever path, does nothing to the file at a location or changes its
    content, under all of its names. -/
theorem update_agrees (hl : d.Agrees l) (p : Path) (change : ByteArray → ByteArray) (mode : Nat) :
    let d' := (outcome (update p change mode) d).2
    (d'.bytesAt l = d.bytesAt l ∨ d'.bytesAt l = change (d.bytesAt l)) ∧ d'.Agrees l := by
  unfold update
  rw [outcome_bind, outcome_find]
  cases hr : d.resolve .follow p with
  | error e => exact ⟨.inl rfl, hl⟩
  | ok r =>
    dsimp only
    split
    · rename_i content mode' shared hnode
      obtain ⟨-, hne, hfind⟩ := resolve_entry d _ hr (by simp [hnode])
      refine ⟨bytesAt_setContent hl hne (hfind.trans hnode) change, ?_⟩
      rw [outcome_modify]
      cases shared with
      | none => exact hl.set _ _ _
      | some id => exact hl.setContent_shared r.location _ _ _
    · exact ⟨.inl rfl, hl⟩
    · rename_i hnode
      split
      · exact ⟨.inl rfl, hl⟩
      · obtain ⟨-, hne, hfind⟩ := resolve_entry d _ hr (by simp [hnode])
        refine ⟨?_, hl.set _ _ _⟩
        rw [outcome_modify]
        dsimp only
        by_cases hlr : l = r.location
        · subst hlr
          refine .inr ?_
          rw [bytesAt, bytesAt, find?_set, if_neg hne, if_pos rfl, hfind, hnode]
        · exact .inl (by rw [bytesAt, bytesAt, find?_set_of_ne _ hlr])

theorem appendBytes_agrees (hl : d.Agrees l) (p : Path) (content : ByteArray) :
    let d' := (outcome (appendBytes p content) d).2
    (d'.bytesAt l = d.bytesAt l ∨ d'.bytesAt l = d.bytesAt l ++ content) ∧ d'.Agrees l :=
  update_agrees hl p (· ++ content) newFileMode

end GameInstaller.Disk
