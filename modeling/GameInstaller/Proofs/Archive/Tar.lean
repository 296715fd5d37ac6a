import GameInstaller.Archive.Tar.Unpack
import GameInstaller.Proofs.Disk.Directories

/-!
# Unpacking tar archives

Unpacking is a list of works, one for each member (`unpack_works`), and each of them is tidy
(`unpackMember_tidy`): files and symbolic links take the place of what is in their way, so only a
directory or a hard link collides, and it does so before the member has changed anything but made
the directories that lead to it.
-/

namespace GameInstaller.Archive.Tar

open Disk

/-! ## Leading directories -/

theorem canonical_quiet (p : Path) : Quiet (canonical p) := by
  refine (Quiet.find _ _).bind fun r => ?_
  split
  · exact .pure _
  · exact .fail _

theorem checkInside_quiet (dst p : Path) : Quiet (checkInside dst p) := by
  refine (canonical_quiet p).bind fun here => (canonical_quiet dst).bind fun base => ?_
  split
  · exact .throw _
  · exact .pure _

theorem makeParents_preparing (dst p : Path) : Preparing (makeParents dst p) := by
  refine Quiet.get.preparing.bind fun d => .forM fun dir _ => ?_
  split
  · exact (checkInside_quiet _ _).preparing.bind fun _ => mkdir_preparing _
  · exact mkdir_preparing _

theorem makeDirectory_preparing (p : Path) : Preparing (makeDirectory p) := by
  refine (mkdir_preparing p).attempt.bind fun r => ?_
  split
  · exact (Quiet.pure _).preparing
  · refine Quiet.get.preparing.bind fun d => ?_
    split
    · split
      · exact (Quiet.pure _).preparing
      · exact (Quiet.throw _).preparing
    · exact (Quiet.throw _).preparing

/-! ## Members -/

/-- What takes the place of whatever is in its way never collides. -/
theorem replacing_clear {p : Path} {make : Io Unit} (hm : MakesAt p make) :
    Clear (replacing p make) where
  keeps := by
    refine hm.keeping.attempt.bind fun r => ?_
    split
    · exact (Quiet.pure _).keeping
    · split
      · exact (unlink_clear p).keeps.bind fun _ => hm.keeping
      · exact (Quiet.throw _).keeping
  clear {d e d'} h := by
    unfold replacing at h
    rw [outcome_bind_of_ok (outcome_attempt _ _)] at h
    rcases hm d with ⟨e₁, he₁, -⟩ | ⟨d₁, -, hok⟩
    · rw [he₁] at h
      dsimp only at h
      split at h
      · intro hc
        rcases outcome_bind_eq_error.mp h with hu | ⟨u, d₂, hu, hmake⟩
        · exact (unlink_clear p).clear hu hc
        · -- After the taking away nothing is left to collide with.
          obtain ⟨r', hr', hnode⟩ := hm.collision hmake hc
          rcases unlink_cases p d with ⟨e₂, -, hu'⟩ | ⟨r, n, hr, hdots, -, -, hu'⟩
          · rw [hu] at hu'
            cases hu'
          · rw [hu] at hu'
            cases hu'
            exact hnode (resolve_erase d _ hr hdots hr')
      · cases h
        assumption
    · rw [hok] at h
      cases h

/-- The failures of a source that ends early are about its bytes. -/
def Intact (s : Source) : Prop := ∀ e, s.failure = some e → ¬ isCollision e

theorem beyond_clear {s : Source} (hs : Intact s) (text : String) :
    ¬ isCollision (s.beyond text) := by
  unfold Source.beyond
  cases hf : s.failure with
  | none => nofun
  | some e => exact hs e hf

theorem contentOf_clear {s : Source} (hs : Intact s) {parts : List Stretch} {out : ByteArray}
    {e : IoError} (h : (contentOf s parts out).2 = some e) : ¬ isCollision e := by
  induction parts generalizing out with
  | nil => cases h
  | cons part parts ih =>
    cases part with
    | hole n => exact ih h
    | bytes start n =>
      unfold contentOf at h
      dsimp only at h
      split at h
      · cases h
        exact beyond_clear hs _
      · exact ih h

theorem writeRegular_clear {s : Source} (hs : Intact s) (m : Member) (p : Path) :
    Clear (writeRegular s m p) := by
  refine (replacing_clear (createNew_makesAt p)).bind fun _ => ?_
  refine (writeBytes_adds p _).clear.bind fun _ => ?_
  split
  · rename_i e hfailure
    exact .throw (contentOf_clear hs hfailure)
  · split
    · exact (chmod_adds p _).clear
    · exact .pure _

theorem makeLink_tidy (dst : Path) (m : Member) (p : Path) : Tidy (makeLink dst m p) := by
  unfold makeLink
  split
  · exact (Quiet.throw _).preparing.tidy
  · split
    · exact (Quiet.throw _).preparing.tidy
    split
    · exact (checkInside_quiet _ _).preparing.bind_tidy fun _ => hardLink_tidy _ _
    · exact (replacing_clear (symlink_makesAt _ p)).tidy

theorem writeMember_tidy {s : Source} (hs : Intact s) (dst : Path) (m : Member) (p : Path) :
    Tidy (writeMember s dst m p) := by
  unfold writeMember
  dsimp only
  split
  · exact (makeDirectory_preparing p).tidy
  split
  · exact makeLink_tidy dst m p
  split
  · exact (Quiet.pure _).preparing.tidy
  split
  · exact (makeDirectory_preparing p).tidy
  · exact (writeRegular_clear hs m p).tidy

/-- A member collides before it has changed anything but made the directories that lead to it. -/
theorem unpackMember_tidy {s : Source} (hs : Intact s) (dst : Path) (m : Member) :
    Tidy (unpackMember s dst m) := by
  unfold unpackMember
  split
  · exact (Quiet.pure _).preparing.tidy
  · exact (Quiet.pure _).preparing.tidy
  · dsimp only
    split
    · exact (Quiet.pure _).preparing.tidy
    · refine (makeParents_preparing _ _).bind_tidy fun _ => ?_
      exact (checkInside_quiet _ _).preparing.bind_tidy fun _ => writeMember_tidy hs _ _ _

/-! ## Archives -/

/-- The members from a position on but directories, and the directories at the end of the archive
    or the failure that ends the reading. -/
def reading (s : Source) : Nat → Nat → List Member → List Member × Except IoError (List Member)
  | 0, _, directories => ([], .ok directories)
  | fuel + 1, pos, directories =>
    match member? s (s.data.size + 2) ⟨none, none, none⟩ pos with
    | .error e => ([], .error e)
    | .ok none => ([], .ok directories)
    | .ok (some m) =>
      if m.header.kind = letter '5' then reading s fuel m.next (m :: directories)
      else
        let (members, last) := reading s fuel m.next directories
        (m :: members, last)

/-- What unpacking does: a work for each member in the order of the archive, directories last. -/
def works (s : Source) (dst : Path) : List (Io Unit) :=
  let (members, last) := reading s (s.data.size + 2) 0 []
  members.map (unpackMember s dst) ++ match last with
    | .error e => [throw e]
    | .ok directories =>
      (directories.reverse.mergeSort fun a b => isBefore b.name a.name).map (unpackMember s dst)

theorem works_tidy {s : Source} (hs : Intact s) (dst : Path) : ∀ work ∈ works s dst, Tidy work := by
  intro work hw
  unfold works at hw
  rcases List.mem_append.mp hw with hw | hw
  · obtain ⟨m, -, rfl⟩ := List.mem_map.mp hw
    exact unpackMember_tidy hs dst m
  · split at hw
    · obtain rfl := List.mem_singleton.mp hw
      exact (Quiet.throw _).preparing.tidy
    · obtain ⟨m, -, rfl⟩ := List.mem_map.mp hw
      exact unpackMember_tidy hs dst m

/-- Reading and unpacking go hand in hand. -/
theorem outcome_unpackFrom_bind (s : Source) (dst : Path) (k : List Member → Io Unit)
    (fuel pos : Nat) (directories : List Member) (d : Disk) :
    outcome (unpackFrom s dst fuel pos directories >>= k) d =
      outcome (do
        (reading s fuel pos directories).1.forM (unpackMember s dst)
        match (reading s fuel pos directories).2 with
        | .error e => throw e
        | .ok directories => k directories) d := by
  induction fuel generalizing pos directories d with
  | zero => rfl
  | succ fuel ih =>
    unfold unpackFrom reading
    cases member? s (s.data.size + 2) ⟨none, none, none⟩ pos with
    | error e => rfl
    | ok found =>
      cases found with
      | none => rfl
      | some m =>
        dsimp only
        split
        -- A directory is put off; any other member is unpacked before the next one is read.
        · exact ih _ _ d
        · change outcome ((unpackMember s dst m >>= fun _ => _) >>= k) d =
            outcome ((unpackMember s dst m >>= fun _ => List.forM _ _) >>= _) d
          rw [bind_assoc, bind_assoc, outcome_bind, outcome_bind]
          rcases outcome (unpackMember s dst m) d with ⟨r, d₁⟩
          cases r with
          | ok u => exact ih _ _ d₁
          | error e => rfl

/-- The directory that a path leads to, or else the path. -/
def base (d : Disk) (dst : Path) : Path :=
  match (outcome (canonical dst) d).1 with
  | .ok l => pathOf l
  | .error _ => dst

/-- Unpacking an archive is its works, one after the other. -/
theorem outcome_unpack (s : Source) (dst : Path) (d : Disk) :
    outcome (unpack s dst) d = outcome ((works s (base d dst)).forM id) d := by
  -- Where the target leads is looked up once, before anything is unpacked.
  have hbase : outcome (unpack s dst) d = outcome (unpackFrom s (base d dst) (s.data.size + 2) 0 [] >>=
      fun directories => (directories.reverse.mergeSort fun a b => isBefore b.name a.name).forM
        (unpackMember s (base d dst))) d := by
    unfold unpack base
    rw [outcome_bind_of_ok (outcome_attempt _ _), canonical_quiet dst d]
    cases (outcome (canonical dst) d).1 <;> rfl
  rw [hbase, outcome_unpackFrom_bind]
  unfold works
  dsimp only
  rw [outcome_forM_append, outcome_bind, outcome_bind, outcome_forM_map]
  rcases outcome _ d with ⟨r, d₁⟩
  cases r with
  | error e => rfl
  | ok u =>
    dsimp only
    split
    · rw [outcome_forM_singleton]
    · rw [outcome_forM_map]

theorem unpack_keeping {s : Source} (hs : Intact s) (dst : Path) : Keeping (unpack s dst) := by
  intro d
  rw [outcome_unpack]
  exact Keeping.forM (fun work hw => (works_tidy hs (base d dst) work hw).keeps) d

end GameInstaller.Archive.Tar
