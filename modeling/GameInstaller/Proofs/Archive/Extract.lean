import GameInstaller.Archive.Extract
import GameInstaller.Proofs.Archive.Tar
import GameInstaller.Proofs.Archive.Zip
import GameInstaller.Proofs.Disk.Transfer

/-!
# Extracting archives

Extracting makes the target directory and then is the works of unpacking, which the disk before it
tells unless that directory is new.

## Key results

- `extract_alike_iff`: when an extraction that collides leaves the disk as it was
-/

namespace GameInstaller.Archive

open Disk

/-- Calls about a path, one after the other, are the calls about that path. -/
theorem outcome_forM_about (p : Path) (works : List (Io Unit)) (d : Disk) :
    outcome ((works.map (about p)).forM id) d = outcome (about p (works.forM id)) d := by
  induction works generalizing d with
  | nil => rfl
  | cons work works ih =>
    rw [List.map_cons, outcome_forM_cons, outcome_bind, id, outcome_about, outcome_about,
      outcome_forM_cons, outcome_bind, id]
    rcases outcome work d with ⟨r, d₁⟩
    cases r with
    | ok u => exact (ih d₁).trans (outcome_about p _ d₁)
    | error e => rfl

theorem about_follows {d : Disk} {x : Io Unit} {works : List (Io Unit)} (p : Path)
    (h : Follows d x works) : Follows d (about p x) (works.map (about p)) := by
  intro f d' hc hnew
  rw [outcome_forM_about, outcome_about_eq_error, outcome_about_eq_error]
  refine exists_congr fun e => and_congr_left ?_
  rintro rfl
  exact h e d' (isCollision_ofIo.mp hc) hnew

/-- What unpacking does that can collide. -/
def unpackWorks (d : Disk) (archive dst : Path) (format : Format) : List (Io Unit) :=
  match (outcome (readBytes archive) d).1 with
  | .error e => [throw e]
  | .ok data =>
    match format with
    | .zip => Zip.works data (Zip.base d dst)
    | format => Tar.works (.ofStream (expanded format data)) (Tar.base d dst)

theorem intact_ofStream (format : Format) (data : ByteArray) :
    Tar.Intact (.ofStream (expanded format data)) := by
  intro e he
  obtain ⟨defect, rfl⟩ := expanded_defective format data e he
  exact defect.not_isCollision

theorem unpackWorks_tidy (d : Disk) (archive dst : Path) (format : Format) :
    ∀ work ∈ unpackWorks d archive dst format, Tidy work := by
  intro work hw
  unfold unpackWorks at hw
  split at hw
  · obtain rfl := List.mem_singleton.mp hw
    exact (Quiet.throw _).preparing.tidy
  · split at hw
    · exact Zip.works_tidy _ _ work hw
    · exact Tar.works_tidy (intact_ofStream _ _) _ work hw

theorem unpack_follows (d : Disk) (archive dst : Path) (format : Format) :
    Follows d (unpack archive dst format) (unpackWorks d archive dst format) := by
  have hread := readBytes_quiet archive d
  unfold unpack unpackWorks
  rcases h : outcome (readBytes archive) d with ⟨r, d₁⟩
  rw [h] at hread
  -- Reading the archive leaves the disk, so unpacking starts on the disk that tells the works.
  obtain rfl : d₁ = d := hread
  cases r with
  | error e =>
    refine .of_outcome ?_
    rw [outcome_bind_of_error h, outcome_forM_singleton, outcome_throw]
  | ok data =>
    intro e d' hc hnew
    rw [outcome_bind_of_ok h]
    cases format with
    | zip => exact Zip.unpack_follows data dst d₁ e d' hc hnew
    | tar | tarGz | tarBz2 | tarZst =>
      dsimp only
      rw [Tar.outcome_unpack]

theorem unpack_keeping (archive dst : Path) (format : Format) :
    Keeping (unpack archive dst format) := by
  refine (readBytes_quiet archive).keeping.bind fun data => ?_
  split
  · exact Zip.unpack_keeping data dst
  · exact Tar.unpack_keeping (intact_ofStream _ _) dst

/-- What an extraction does that can collide: making its directory, and then unpacking. -/
def extractWorks (d : Disk) (archive dst : Path) (format : Format) : List (Fs Unit) :=
  about dst (createDirAll dst) :: (unpackWorks d archive dst format).map (about archive)

/-- When an extraction collides, the disk is as it was exactly if no work before the collision
    changed it and the colliding one did not. -/
theorem extract_alike_iff {archive dst : Path} {format : Format} {d d' : Disk} {f : Fault}
    (h : outcome (extract archive dst format) d = (.error f, d')) (hc : isCollision f) :
    Alike d d' ↔ Untouched (extractWorks d archive dst format) d := by
  unfold extract at h
  rw [outcome_bind_of_ok (outcome_get d)] at h
  cases hp : d.pathExists archive with
  | false =>
    rw [hp] at h
    cases h
    cases hc
  | true =>
    rw [hp] at h
    have hmake := (createDirAll_building dst).about dst
    have htidy : ∀ work ∈ (unpackWorks d archive dst format).map (about archive), Tidy work := by
      intro work hw
      obtain ⟨w, hmem, rfl⟩ := List.mem_map.mp hw
      exact (unpackWorks_tidy d archive dst format w hmem).about archive
    have hfollows := Follows.cons hmake.toPreparing
      (about_follows archive (unpack_follows d archive dst format))
      (fun work hw => (htidy work hw).keeps) (fun {d₁ e d'} he _ => by
        have hkeeps := (unpack_keeping archive dst format).about archive d₁
        rwa [he] at hkeeps)
    exact alike_iff_untouched hfollows (List.forall_mem_cons.mpr ⟨hmake.tidy, htidy⟩) h hc

end GameInstaller.Archive
