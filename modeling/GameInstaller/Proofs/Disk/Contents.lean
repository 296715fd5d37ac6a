import GameInstaller.Proofs.Disk.Extending
import GameInstaller.Proofs.Disk.Transfer

/-!
# Contents of files

What making directories and adding to a file does to the contents of all files.

* `bytesAt`      the content of the file at a location
* `SameFile`     nothing happened to the file at a location
* `AddsDirs`     directories were made where nothing was, and nothing else changed
* `Appends`      the file that a path leads to was added to, or made

## Key results

- `createDirAll_addsDirs`: what making a directory with its parents does
- `appendBytes_ok`: what adding to a file does
-/

namespace GameInstaller.Disk

/-! ## Files -/


/-- The content of the file at a location; nothing where no file is. -/
def bytesAt (d : Disk) (l : Location) : ByteArray :=
  match d.find? l with
  | some (.file content _ _) => content
  | _ => ByteArray.empty

/-- No file with several names is at the location. -/
def HasOneName (d : Disk) (l : Location) : Prop :=
  ∀ content mode id, d.find? l ≠ some (.file content mode (some id))

/-- What is at a location has the same content, and still no other name. -/
structure SameFile (d d' : Disk) (l : Location) : Prop where
  bytes : d'.bytesAt l = d.bytesAt l
  hasOneName : d.HasOneName l → d'.HasOneName l

namespace SameFile

variable {d d₁ d₂ : Disk} {l : Location}

theorem refl : SameFile d d l := ⟨rfl, id⟩

theorem trans (h : SameFile d d₁ l) (h' : SameFile d₁ d₂ l) : SameFile d d₂ l :=
  ⟨h'.bytes.trans h.bytes, fun hl => h'.hasOneName (h.hasOneName hl)⟩

theorem of_find? (h : d₁.find? l = d.find? l) : SameFile d d₁ l where
  bytes := by rw [bytesAt, bytesAt, h]
  hasOneName hl := by rwa [HasOneName, h]

end SameFile

/-! ## Making directories -/

/-- Directories were made where nothing was, and nothing else changed. -/
structure AddsDirs (d d' : Disk) : Prop where
  working : d'.working = d.working
  dirs : ∀ l, d'.find? l = d.find? l ∨ (d.find? l = none ∧ d'.find? l = some .dir)

namespace AddsDirs

variable {d d₁ d₂ : Disk}

theorem refl : AddsDirs d d := ⟨rfl, fun _ => .inl rfl⟩

theorem trans (h : AddsDirs d d₁) (h' : AddsDirs d₁ d₂) : AddsDirs d d₂ where
  working := h'.working.trans h.working
  dirs l := by
    rcases h'.dirs l with hsame' | ⟨hnone', hdir'⟩
    · rcases h.dirs l with hsame | ⟨hnone, hdir⟩
      · exact .inl (hsame'.trans hsame)
      · exact .inr ⟨hnone, hsame'.trans hdir⟩
    · rcases h.dirs l with hsame | ⟨-, hdir⟩
      · exact .inr ⟨hsame.symm.trans hnone', hdir'⟩
      · rw [hdir] at hnone'
        cases hnone'

theorem extending (h : AddsDirs d d₁) : Extends d d₁ where
  working := h.working
  keeps l n hn := by
    rw [find?_outline] at hn ⊢
    rcases h.dirs l with hsame | ⟨hnone, -⟩
    · rwa [hsame]
    · rw [hnone] at hn
      cases hn

/-- Files are left alone. -/
theorem sameFile (h : AddsDirs d d₁) (l : Location) : SameFile d d₁ l := by
  rcases h.dirs l with hsame | ⟨hnone, hdir⟩
  · exact .of_find? hsame
  · exact ⟨by rw [bytesAt, bytesAt, hnone, hdir], fun _ => by rw [HasOneName, hdir]; nofun⟩

end AddsDirs

theorem mkdir_addsDirs (p : Path) (d : Disk) : AddsDirs d (outcome (mkdir p) d).2 := by
  cases hr : d.resolve .entry p with
  | error e =>
    rw [outcome_mkdir_of_error hr]
    exact .refl
  | ok r =>
    cases hn : r.node.isSome with
    | true =>
      rw [outcome_mkdir_of_some hr hn]
      exact .refl
    | false =>
      rw [outcome_mkdir_of_none hr hn]
      have hnone : r.node = none := by simpa using hn
      obtain ⟨-, hl, hfind⟩ := resolve_entry d _ hr (by simp [hnone])
      refine ⟨rfl, fun l => ?_⟩
      rw [find?_set]
      split
      · subst l
        exact .inl (find?_nil d).symm
      split
      · subst l
        exact .inr ⟨hfind.trans hnone, rfl⟩
      · exact .inl rfl

theorem climb_addsDirs (fuel : Nat) (p : Path) (todo : List Path) (d : Disk) :
    AddsDirs d (outcome (climb fuel p todo) d).2 := by
  induction fuel generalizing p todo d with
  | zero => exact .refl
  | succ fuel ih =>
    cases htop : isTop p with
    | true =>
      rw [climb, if_pos htop]
      exact .refl
    | false =>
      have hmkdir := mkdir_addsDirs p d
      rw [outcome_climb htop]
      rcases h : outcome (mkdir p) d with ⟨r, d'⟩
      rw [h] at hmkdir
      cases r with
      | ok u => exact hmkdir
      | error e =>
        dsimp only
        -- Whatever the error, the climb goes on to the parent or ends here.
        split
        · split
          · exact hmkdir.trans (ih _ _ _)
          · exact hmkdir
        · split <;> exact hmkdir

theorem mkdirs_addsDirs (paths : List Path) (d : Disk) : AddsDirs d (outcome (mkdirs paths) d).2 := by
  induction paths generalizing d with
  | nil => exact .refl
  | cons p rest ih =>
    have hmkdir := mkdir_addsDirs p d
    rw [outcome_mkdirs_cons]
    rcases h : outcome (mkdir p) d with ⟨r, d'⟩
    rw [h] at hmkdir
    cases r with
    | ok u => exact hmkdir.trans (ih _)
    | error e =>
      dsimp only
      split
      · exact hmkdir.trans (ih _)
      · exact hmkdir

/-- Making a directory with its parents makes directories and does nothing else. -/
theorem createDirAll_addsDirs (p : Path) (d : Disk) : AddsDirs d (outcome (createDirAll p) d).2 := by
  unfold createDirAll
  split
  · exact .refl
  · have hclimb := climb_addsDirs (p.text.length + 1) p [] d
    rw [outcome_bind]
    rcases h : outcome (climb (p.text.length + 1) p []) d with ⟨r, d'⟩
    rw [h] at hclimb
    cases r with
    | ok todo => exact hclimb.trans (mkdirs_addsDirs _ _)
    | error e => exact hclimb

/-- Making a directory as a step of an install makes directories and does nothing else. -/
theorem createDir_addsDirs (p : Path) (d : Disk) : AddsDirs d (outcome (createDir p) d).2 := by
  unfold createDir
  rw [outcome_bind_of_ok (outcome_get d)]
  cases hthere : d.pathExists p with
  | true => exact .refl
  | false =>
    have hdirs := createDirAll_addsDirs p d
    change AddsDirs d (outcome (about p (createDirAll p)) d).2
    rwa [outcome_about]

/-- A directory that is there need not be made. -/
theorem outcome_createDirAll_of_isDir {p : Path} {d : Disk} {r : Resolved}
    (hr : d.resolve .follow p = .ok r) (hdir : r.node = some .dir) :
    outcome (createDirAll p) d = (.ok (), d) := by
  unfold createDirAll
  cases htop : isTop p with
  | true => rfl
  | false =>
    obtain ⟨r', hr', hn'⟩ := resolve_entry_of_follow hr (by simp [hdir])
    have hthere : d.isDir p = true := by simp [isDir, stat, hr, hdir, Node.isDir]
    have hclimb : outcome (climb (p.text.length + 1) p []) d = (.ok [], d) := by
      rw [outcome_climb htop, outcome_mkdir_of_some hr' hn']
      have hkind : (IoError.system .fileExists).kind = .alreadyExists := rfl
      simp [hkind, hthere]
    rw [if_neg (by simp), outcome_bind_of_ok hclimb]
    rfl

/-! ## Adding to files -/

/-- A node whose content is changed when it is a file with this link number. -/
def Node.refill (id : Nat) (content : ByteArray) (mode : Nat) : Node → Node
  | file c m (some i) => if i = id then file content mode (some id) else file c m (some i)
  | n => n

theorem entries_setContent_shared (d : Disk) (l : Location) (content : ByteArray) (mode id : Nat) :
    (d.setContent l content mode (some id)).entries =
      d.entries.map fun (j, n) => (j, n.refill id content mode) := by
  refine List.map_congr_left fun e _ => ?_
  obtain ⟨j, n⟩ := e
  cases n with
  | dir | link target => rfl
  | file c m shared =>
    cases shared with
    | none => rfl
    | some i => by_cases hi : i = id <;> simp [Node.refill, hi]

/-- Changing the content of a file that has several names changes it under all of them. -/
theorem find?_setContent_shared (d : Disk) (l k : Location) (content : ByteArray) (mode id : Nat) :
    (d.setContent l content mode (some id)).find? k =
      (d.find? k).map (Node.refill id content mode) := by
  by_cases hk : k = []
  · simp [hk, Node.refill]
  · rw [find?, find?, if_neg hk, if_neg hk, entries_setContent_shared, lookup_map]

/-- Changing the content of a file leaves the other files alone. -/
theorem find?_setContent_of_ne {d : Disk} {l k : Location} {shared : Option Nat} (hk : k ≠ l)
    (hone : d.HasOneName k) (content : ByteArray) (mode : Nat) :
    (d.setContent l content mode shared).find? k = d.find? k := by
  cases shared with
  | none => rw [setContent, find?_set_of_ne _ hk]
  | some id =>
    rw [find?_setContent_shared]
    -- A file with one name is not one of those with the link number.
    cases hn : d.find? k with
    | none => rfl
    | some n =>
      cases n with
      | dir | link target => rfl
      | file c' m' shared' =>
        cases shared' with
        | none => rfl
        | some i => exact absurd hn (hone c' m' i)

theorem find?_setContent_self {d : Disk} {l : Location} {c : ByteArray} {m : Nat}
    {shared : Option Nat} (hl : l ≠ []) (hfile : d.find? l = some (.file c m shared))
    (content : ByteArray) (mode : Nat) :
    (d.setContent l content mode shared).find? l = some (.file content mode shared) := by
  cases shared with
  | none => rw [setContent, find?_set, if_neg hl, if_pos rfl]
  | some id => rw [find?_setContent_shared, hfile, Option.map_some, Node.refill, if_pos rfl]

/-- Adding to the end of a file that a path leads to. -/
structure Appends (d d' : Disk) (p : Path) (content : ByteArray) (l : Location) : Prop where
  extending : Extends d d'
  fileAt : FileAt d' p l
  bytes : d'.bytesAt l = d.bytesAt l ++ content
  hasOneName : d.HasOneName l → d'.HasOneName l
  others : ∀ k ≠ l, d.HasOneName k → SameFile d d' k

/-- Directories may be made first. -/
theorem Appends.of_addsDirs {d d₁ d' : Disk} {p : Path} {content : ByteArray} {l : Location}
    (hdirs : AddsDirs d d₁) (h : Appends d₁ d' p content l) : Appends d d' p content l where
  extending := hdirs.extending.trans h.extending
  fileAt := h.fileAt
  bytes := by rw [h.bytes, (hdirs.sameFile l).bytes]
  hasOneName hone := h.hasOneName ((hdirs.sameFile l).hasOneName hone)
  others k hk hone := (hdirs.sameFile k).trans (h.others k hk ((hdirs.sameFile k).hasOneName hone))

/-- Adding to a file makes it when it is not there, and leaves the other files alone. -/
theorem appendBytes_ok {p : Path} {content : ByteArray} {d d' : Disk}
    (h : outcome (appendBytes p content) d = (.ok (), d')) : ∃ l, Appends d d' p content l := by
  unfold appendBytes update at h
  rw [outcome_bind, outcome_find] at h
  cases hr : d.resolve .follow p with
  | error e =>
    rw [hr] at h
    cases h
  | ok r =>
    rw [hr] at h
    dsimp only at h
    split at h
    · -- The file is there, so only its content changes.
      rename_i c m shared hnode
      obtain ⟨-, hl, hfind⟩ := resolve_entry d _ hr (by simp [hnode])
      have hfile := hfind.trans hnode
      cases h
      have hextends : Extends d (d.setContent r.location (c ++ content) m shared) :=
        .of_outline (outline_setContent d hl hfile _ _)
      have hself := find?_setContent_self hl hfile (c ++ content) m
      exact ⟨r.location, {
        extending := hextends
        fileAt := hextends.fileAt ⟨r, c, m, shared, hr, rfl, hnode⟩
        bytes := by rw [bytesAt, bytesAt, hself, hfile]
        hasOneName := fun hone => by
          rw [HasOneName, hself]
          rintro c' m' id ⟨⟩
          exact hone c m id hfile
        others := fun k hk hone => .of_find? (find?_setContent_of_ne hk hone _ _) }⟩
    · cases h
    · -- Nothing is there, so a file is made.
      rename_i hnode
      split at h
      · cases h
      · rename_i hslash
        obtain ⟨-, hl, hfind⟩ := resolve_entry d _ hr (by simp [hnode])
        have hnone := hfind.trans hnode
        cases h
        have hself : (d.set r.location (.file (ByteArray.empty ++ content) newFileMode none)).find?
            r.location = some (.file (ByteArray.empty ++ content) newFileMode none) := by
          rw [find?_set, if_neg hl, if_pos rfl]
        have hresolve := resolve_set hr hnode (by simpa using hslash) (ByteArray.empty ++ content)
          newFileMode none
        exact ⟨r.location, {
          extending := .set hnone _
          fileAt := ⟨_, _, _, _, hresolve, rfl, rfl⟩
          bytes := by rw [bytesAt, bytesAt, hself, hnone]
          hasOneName := fun _ => by
            rw [HasOneName, hself]
            nofun
          others := fun k hk _ => .of_find? (find?_set_of_ne _ hk _) }⟩

/-- A file that is there can be added to. -/
theorem appendBytes_of_fileAt {p : Path} {d : Disk} {l : Location} (h : FileAt d p l)
    (content : ByteArray) : ∃ d', outcome (appendBytes p content) d = (.ok (), d') := by
  obtain ⟨r, c, m, shared, hr, -, hn⟩ := h
  unfold appendBytes update
  rw [outcome_bind, outcome_find, hr]
  dsimp only
  rw [hn]
  exact ⟨_, rfl⟩

end GameInstaller.Disk
