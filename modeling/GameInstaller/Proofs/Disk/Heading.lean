import GameInstaller.Proofs.Disk.Beneath
import GameInstaller.Proofs.Disk.Places
import GameInstaller.Proofs.Disk.Sharing

/-!
# Where paths head

A path whose directories are not there yet heads for a location all the same: as long as no link is
added, it can come to lead to this one location only.  Names behind the path are then looked for
beneath that location, unless there is a link under one of them.

* `GoesTo`   names that are followed through directories come to one location only

## Key results

- `exists_goesTo`: every path heads for a location
- `GoesTo.heads_child`: names behind a path head for what has these names beneath its location
-/

namespace GameInstaller.Disk

variable {d : Disk} {p : Path} {D : Location}

/-- The names of a path come to this location, if they come anywhere, and so they do as long as no
    link is added. -/
def GoesTo (d : Disk) (p : Path) (D : Location) : Prop :=
  ∀ d', AddsNoLink d d' → ∀ slash r,
    walk d' .follow maxLinks (origin d'.working p) slash (segments p.text) = .ok r → r.location = D

/-- A directory may be put where nothing is, if there is one on the disk with more. -/
theorem AddsNoLink.of_set_dir {d' : Disk} {l : Location} (h : AddsNoLink d d')
    (hdir : d'.find? l = some .dir) : AddsNoLink (d.set l .dir) d' where
  working := h.working
  keeps k n hk := by
    by_cases hkl : k = l
    · subst hkl
      simp only [find?_outline, find?_set, ↓reduceIte, ite_self] at hk
      rwa [find?_outline, hdir]
    · rw [find?_outline, find?_set_of_ne _ hkl, ← find?_outline] at hk
      exact h.keeps k n hk
  links k target hk := by
    have hkl : k ≠ l := by
      rintro rfl
      cases hdir.symm.trans hk
    rw [find?_set_of_ne _ hkl]
    exact h.links k target hk

theorem AddsNoLink.link {d' : Disk} {l : Location} (h : AddsNoLink d d') {target : String}
    (hl : d.find? l = some (.link target)) : d'.find? l = some (.link target) :=
  find?_outline_eq_link.mp (h.keeps l _ (find?_outline_eq_link.mpr hl))

/-- A step of a walk ends at the name, or goes on from the directory that has the name, or follows the
    link that has it. -/
theorem walkAt_cases {links : Nat} {cur : Location} {slash : Bool} {name : String}
    {rest : List String} {n : Option Node} {r : Resolved}
    (hr : walkAt d .follow links cur slash name rest n = .ok r) :
    (∃ target links', n = some (.link target) ∧ links = links' + 1 ∧
      walk d .follow links' (if startsInSlash target then [] else cur)
        (slash || (rest.isEmpty && endsInSlash target)) (segments target ++ rest) = .ok r) ∨
    (∀ target, n ≠ some (.link target)) ∧ ((rest = [] ∧ r.location = cur ++ [name]) ∨
      rest ≠ [] ∧ n = some .dir ∧ walk d .follow links (cur ++ [name]) slash rest = .ok r) := by
  cases n with
  | none =>
    simp only [walkAt] at hr
    split at hr
    · rename_i hrest
      cases hr
      exact .inr ⟨fun _ => by simp, .inl ⟨List.isEmpty_iff.mp hrest, rfl⟩⟩
    · cases hr
  | some n =>
    cases n with
    | dir =>
      simp only [walkAt] at hr
      split at hr
      · rename_i hrest
        cases hr
        exact .inr ⟨fun _ => by simp, .inl ⟨List.isEmpty_iff.mp hrest, rfl⟩⟩
      · rename_i hrest
        exact .inr ⟨fun _ => by simp, .inr ⟨by simpa using hrest, rfl, hr⟩⟩
    | file content mode shared =>
      simp only [walkAt] at hr
      split at hr
      · rename_i hrest
        cases hr
        exact .inr ⟨fun _ => by simp, .inl ⟨by simp_all, rfl⟩⟩
      · cases hr
    | link target =>
      rcases links with _ | links
      · simp [walkAt] at hr
      · exact .inl ⟨target, links, rfl, rfl, by simpa [walkAt] using hr⟩

/-- Wherever names are followed to, it is one location only, as long as no link is added. -/
theorem exists_walk_location (d : Disk) (links : Nat) (cur : Location) (names : List String) :
    ∃ D, ∀ d', AddsNoLink d d' → ∀ slash r,
      walk d' .follow links cur slash names = .ok r → r.location = D := by
  match names with
  | [] =>
    refine ⟨cur, fun d' _ slash r hr => ?_⟩
    rw [walk] at hr
    cases hr
    rfl
  | name :: rest =>
    by_cases hdot : name = "."
    · obtain ⟨D, hD⟩ := exists_walk_location d links cur rest
      refine ⟨D, fun d' hd slash r hr => hD d' hd slash r ?_⟩
      rwa [walk, if_pos hdot] at hr
    by_cases hup : name = ".."
    · obtain ⟨D, hD⟩ := exists_walk_location d links cur.dropLast rest
      refine ⟨D, fun d' hd slash r hr => hD d' hd slash r ?_⟩
      rwa [walk, if_neg hdot, if_pos hup] at hr
    by_cases hlen : maxName < name.utf8ByteSize
    · refine ⟨[], fun d' _ slash r hr => ?_⟩
      rw [walk, if_neg hdot, if_neg hup, if_pos hlen] at hr
      cases hr
    by_cases hlink : ∃ target, d.find? (cur ++ [name]) = some (.link target)
    · -- A link is followed now and later.
      obtain ⟨target, hlink⟩ := hlink
      rcases hlinks : links with _ | fewer
      · refine ⟨[], fun d' hd slash r hr => ?_⟩
        rw [walk_cons _ _ hdot hup hlen, hd.link hlink] at hr
        simp [walkAt] at hr
      · obtain ⟨D, hD⟩ := exists_walk_location d fewer (if startsInSlash target then [] else cur)
          (segments target ++ rest)
        refine ⟨D, fun d' hd slash r hr => ?_⟩
        rw [walk_cons _ _ hdot hup hlen, hd.link hlink] at hr
        exact hD d' hd _ r (by simpa [walkAt] using hr)
    · -- Where no link is, none will be; if there are more names, it is a directory when they are
      -- followed.
      obtain ⟨D, hD⟩ := exists_walk_location (d.set (cur ++ [name]) .dir) links (cur ++ [name]) rest
      refine ⟨if rest = [] then cur ++ [name] else D, fun d' hd slash r hr => ?_⟩
      rw [walk_cons _ _ hdot hup hlen] at hr
      rcases walkAt_cases hr with ⟨target, _, hn, -⟩ | ⟨-, ⟨hrest, hlocation⟩ | ⟨hrest, hdir, hr⟩⟩
      · exact absurd ⟨target, hd.links _ _ hn⟩ hlink
      · rw [if_pos hrest, hlocation]
      · rw [if_neg hrest]
        exact hD d' (hd.of_set_dir hdir) slash r hr
termination_by (links, names.length)

/-- Every path heads for a location. -/
theorem exists_goesTo (d : Disk) (p : Path) : ∃ D, GoesTo d p D := by
  obtain ⟨D, hD⟩ := exists_walk_location d maxLinks (origin d.working p) (segments p.text)
  refine ⟨D, fun d' hd slash r hr => hD d' hd slash r ?_⟩
  rwa [hd.working] at hr

/-- A name that is not that of a link is where a walk ends, or goes through. -/
theorem walk_name {links : Nat} {cur : Location} {slash : Bool} {name : String} {rest : List String}
    {r : Resolved} (hname : Path.IsProper name)
    (hlink : ∀ target, d.find? (cur ++ [name]) ≠ some (.link target))
    (hr : walk d .follow links cur slash (name :: rest) = .ok r) :
    (rest = [] ∧ r.location = cur ++ [name]) ∨
      (rest ≠ [] ∧ walk d .follow links (cur ++ [name]) slash rest = .ok r) := by
  have hlen : ¬ maxName < name.utf8ByteSize := Nat.not_lt.mpr (walk_names d _ hr name (by simp))
  rw [walk_cons _ _ hname.ne_dot hname.ne_up hlen] at hr
  rcases walkAt_cases hr with ⟨target, _, hn, -⟩ | ⟨-, hend | ⟨hrest, -, hr⟩⟩
  · exact absurd hn (hlink target)
  · exact .inl hend
  · exact .inr ⟨hrest, hr⟩

/-- Names behind a path head for what has these names beneath its location, if neither of them is that
    of a link. -/
theorem GoesTo.heads_child (h : GoesTo d p D) {a b : String} (ha : Path.IsProper a)
    (hb : Path.IsProper b) (hlink : ∀ target, d.find? (D ++ [a]) ≠ some (.link target))
    (hlink' : ∀ target, d.find? (D ++ [a, b]) ≠ some (.link target)) :
    Heads d ((p.child a).child b) (D ++ [a, b]) := by
  intro d' hd r hr
  rcases resolve_cases ((p.child a).child b) with ⟨e, -, -, he⟩ | hwalk
  · rw [he] at hr
    cases hr
  rw [hwalk, mapError_eq_ok, Path.segments_child _ hb.toIsName, Path.segments_child _ ha.toIsName,
    Path.isAbsolute_child _ hb.toIsName, Path.isAbsolute_child _ ha.toIsName, List.append_assoc,
    List.singleton_append] at hr
  -- The walk comes to the directory of the names, which can be at one location only.
  obtain ⟨r', hr', hdir⟩ := walk_front (List.cons_ne_nil _ _) hr (endsInSlash p.text)
  obtain ⟨links, hgoes⟩ := walk_append hr' hdir
  rw [hgoes _ _ _ (List.cons_ne_nil _ _), h d' hd _ _ hr'] at hr
  -- From there the names are followed one by one.
  rcases walk_name ha (fun target ht => hlink target (hd.links _ _ ht)) hr with ⟨hnil, -⟩ | ⟨-, hr⟩
  · cases hnil
  have happend : D ++ [a] ++ [b] = D ++ [a, b] := by simp
  rcases walk_name hb (fun target ht => hlink' target (happend ▸ hd.links _ _ ht)) hr with
    ⟨-, hlocation⟩ | ⟨hne, -⟩
  · rw [hlocation, happend]
  · exact absurd rfl hne

end GameInstaller.Disk
