import GameInstaller.Archive.Extract
import GameInstaller.Archive.Zip.Unpack
import GameInstaller.Proofs.Disk.Directories
import GameInstaller.Proofs.Disk.Works

/-!
# Unpacking zip archives

Entries are works, one after the other (`unpack_follows`), and each of them is tidy
(`unpackEntry_tidy`): a directory or a symbolic link collides before the entry has changed anything
but made the directories that lead to it.  Setting the permissions in the end never collides.

Reading compressed data fails for a defect of the data only, which is never a collision.
-/

/-! ## Compressed data -/

namespace GameInstaller.Compression

open Disk (ByteStream IoError isCollision)

/-- A stream that ends early does so for a defect of compressed data. -/
def Defective (s : ByteStream) : Prop := ∀ e, s.failure = some e → ∃ d : Defect, d.failure = e

theorem Defective.of_map {pieces : List ByteArray} (d : Option Defect) :
    Defective ⟨pieces, d.map Defect.failure⟩ := by
  intro e he
  obtain ⟨d, -, hd⟩ := Option.map_eq_some_iff.mp he
  exact ⟨d, hd⟩

theorem Defective.of_some {pieces : List ByteArray} (d : Defect) :
    Defective ⟨pieces, some d.failure⟩ := .of_map (some d)

theorem Defective.of_none {pieces : List ByteArray} : Defective ⟨pieces, none⟩ := nofun

theorem Gzip.read_defective (data : ByteArray) : Defective (Gzip.read data) := by
  unfold Gzip.read
  split
  · exact .of_some _
  · dsimp only
    split
    · exact .of_some _
    · exact .of_map _

theorem Bzip2.read_defective (data : ByteArray) : Defective (Bzip2.read data) := by
  unfold Bzip2.read
  dsimp only
  split
  · exact .of_some _
  split
  · exact .of_some _
  · exact .of_map _

theorem Zstd.read_defective (data : ByteArray) : Defective (Zstd.read data) := .of_map _

theorem Defect.not_isCollision (d : Defect) : ¬ isCollision d.failure := by
  cases d <;> decide

end GameInstaller.Compression

namespace GameInstaller.Archive

open Disk (isCollision)

/-- What an archive reads as fails for a defect of its compression only. -/
theorem expanded_defective (format : Format) (data : ByteArray) :
    Compression.Defective (expanded format data) := by
  cases format with
  | tarGz => exact Compression.Gzip.read_defective data
  | tarBz2 => exact Compression.Bzip2.read_defective data
  | tarZst => exact Compression.Zstd.read_defective data
  | tar => exact .of_none
  | zip => exact .of_none

end GameInstaller.Archive

namespace GameInstaller.Archive.Zip

open Disk

/-! ## Entries -/

theorem prepare_preparing (p : Path) (names : List String) : Preparing (prepare p names) := by
  induction names generalizing p with
  | nil => exact (Quiet.pure _).preparing
  | cons name rest ih =>
    refine Quiet.get.preparing.bind fun d => ?_
    split
    · exact (Quiet.throw _).preparing
    · exact ih _
    · split
      · split
        · exact (createDirAll_building _).toPreparing.bind fun _ => ih _
        · exact ih _
      · exact (Quiet.throw _).preparing

/-- The check of an entry's content fails for the content. -/
theorem content_clear {e : Entry} {data content : ByteArray} {f : IoError}
    (h : e.content data = .ok (content, some f)) : ¬ isCollision f := by
  have hchecked (out : ByteArray)
      (h : (if (Compression.Crc32.low out).toNat = e.crc then none
        else some (invalid "Invalid checksum")) = some f) : ¬ isCollision f := by
    split at h
    · cases h
    · cases h
      decide
  have hdefect {s : ByteStream} (hs : Compression.Defective s) {f : IoError}
      (hf : s.failure = some f) : ¬ isCollision f := by
    obtain ⟨defect, rfl⟩ := hs f hf
    exact defect.not_isCollision
  unfold Entry.content at h
  split at h
  · cases h
  dsimp only at h
  split at h
  · exact hchecked _ (Prod.mk.inj (Except.ok.inj h)).2
  · split at h
    · cases h
      exact Compression.Defect.corrupt.not_isCollision
    · exact hchecked _ (Prod.mk.inj (Except.ok.inj h)).2
  · split at h
    · rename_i hf
      cases h
      exact hdefect (Compression.Bzip2.read_defective _) hf
    · exact hchecked _ (Prod.mk.inj (Except.ok.inj h)).2
  · split at h
    · rename_i hf
      cases h
      exact hdefect (Compression.Zstd.read_defective _) hf
    · exact hchecked _ (Prod.mk.inj (Except.ok.inj h)).2
  · cases h

/-- An entry collides before it has changed anything but made the directories that lead to it. -/
theorem unpackEntry_tidy (data : ByteArray) (dst : Path) (e : Entry) :
    Tidy (unpackEntry data dst e) := by
  unfold unpackEntry
  split
  · exact (Quiet.throw _).preparing.tidy
  · exact (Quiet.throw _).preparing.tidy
  · rename_i content failure names hcontent _
    refine (prepare_preparing _ _).bind_tidy fun p => ?_
    split
    · split
      · exact (Quiet.throw _).preparing.tidy
      · exact (Quiet.throw _).preparing.tidy
      · exact (symlink_makesAt _ p).tidy.bind_clear fun _ => .pure _
    split
    · exact (createDirAll_building p).tidy.bind_clear fun _ => .pure _
    · refine ((writeBytes_adds p _).clear.bind fun _ => ?_).tidy
      refine (writeBytes_adds p _).clear.bind fun _ => ?_
      split
      · exact .throw (content_clear hcontent)
      · exact .pure _

/-! ## Archives -/

/-- Where an archive is unpacked to. -/
def base (d : Disk) (dst : Path) : Except IoError Path :=
  match d.resolve .follow dst with
  | .error e => .error e
  | .ok r =>
    if r.node.isNone then .error (.system .noEntry) else .ok ⟨"/" ++ "/".intercalate r.location⟩

/-- What unpacking does that can collide: a work for each entry, in the order of the archive. -/
def works (data : ByteArray) (base : Except IoError Path) : List (Io Unit) :=
  match entries data, base with
  | .error e, _ => [throw e]
  | .ok _, .error e => [throw e]
  | .ok found, .ok base => found.map fun e => do
    let _ ← unpackEntry data base e

theorem works_tidy (data : ByteArray) (base : Except IoError Path) :
    ∀ work ∈ works data base, Tidy work := by
  intro work hw
  unfold works at hw
  split at hw
  · obtain rfl := List.mem_singleton.mp hw
    exact (Quiet.throw _).preparing.tidy
  · obtain rfl := List.mem_singleton.mp hw
    exact (Quiet.throw _).preparing.tidy
  · obtain ⟨e, -, rfl⟩ := List.mem_map.mp hw
    exact (unpackEntry_tidy data _ e).bind_clear fun _ => .pure _

/-- Calls in a row fail the same whether or not their results are kept. -/
theorem outcome_mapM_eq_error {α β ε : Type} (f : α → Call ε β) {xs : List α} {d d' : Disk} {e : ε} :
    outcome (xs.mapM f) d = (.error e, d') ↔
      outcome (xs.forM fun x => do let _ ← f x) d = (.error e, d') := by
  induction xs generalizing d with
  | nil => exact ⟨nofun, nofun⟩
  | cons x xs ih =>
    -- Keeping the results does not fail.
    have hrest (d₁ : Disk) (b : β) :
        outcome (xs.mapM f >>= fun bs => pure (b :: bs)) d₁ = (.error e, d') ↔
          outcome (xs.forM fun x => do let _ ← f x) d₁ = (.error e, d') := by
      rw [← ih, outcome_bind_eq_error]
      constructor
      · rintro (h | ⟨bs, d₂, -, h⟩)
        · exact h
        · cases h
      · exact .inl
    rw [List.mapM_cons, outcome_forM_cons, outcome_bind, outcome_bind, outcome_bind]
    rcases outcome (f x) d with ⟨r, d₁⟩
    cases r with
    | ok b => exact hrest d₁ b
    | error e₁ => simp

/-- Setting permissions never collides. -/
theorem setModes_clear (modes : List (Option (Path × Nat))) :
    Clear (modes.forM fun
      | some (p, mode) => chmod p (mode % 4096)
      | none => pure ()) := by
  refine .forM fun mode _ => ?_
  split
  · exact (chmod_adds _ _).clear
  · exact .pure _

/-- Up to a collision unpacking an archive is its works, one after the other. -/
theorem unpack_follows (data : ByteArray) (dst : Path) (d : Disk) :
    Follows d (unpack data dst) (works data (base d dst)) := by
  intro e d' hc _
  unfold unpack works base
  cases entries data with
  | error e₁ => simp
  | ok found =>
    rw [outcome_bind_of_ok (outcome_pure _ _), outcome_bind, outcome_find]
    cases d.resolve .follow dst with
    | error e₁ => simp
    | ok r =>
      dsimp only
      cases r.node.isNone with
      | true => simp [outcome_bind]
      | false =>
        simp only [Bool.false_eq_true, ↓reduceIte]
        rw [outcome_forM_map, ← outcome_mapM_eq_error, outcome_bind_eq_error]
        -- A failure of the permissions would not be a collision.
        constructor
        · rintro (h | ⟨modes, d₁, -, h⟩)
          · exact h
          · exact absurd hc ((setModes_clear modes).clear h)
        · exact .inl

theorem unpack_keeping (data : ByteArray) (dst : Path) : Keeping (unpack data dst) := by
  unfold unpack
  cases entries data with
  | error e => exact fun d => .refl
  | ok found =>
    refine (Quiet.pure found).keeping.bind fun found => (Quiet.find _ _).keeping.bind fun r => ?_
    have hentries (base : Path) : Keeping (found.mapM (unpackEntry data base) >>=
        fun modes => modes.forM fun
          | some (p, mode) => chmod p (mode % 4096)
          | none => pure ()) :=
      (Keeping.mapM fun e _ => (unpackEntry_tidy data base e).keeps).bind fun modes =>
        (setModes_clear modes).keeps
    dsimp only
    split
    · exact (Quiet.fail _).keeping.bind fun _ => hentries _
    · exact hentries _

end GameInstaller.Archive.Zip
