import GameInstaller.Proofs.Disk.Beneath
import GameInstaller.Proofs.Disk.Leading
import Mathlib.Data.List.Infix

/-!
# Places of paths

Where there are no links, it can be read off a path where it leads, and the places that it passes on
its way.

On any disk a directory is there once it was made with its parents, whether or not there were links on
the way to it.  Making it starts with the path itself: it is made at once, or found, or left for last.

* `place w p`   where a path leads from the directory `w`
* `OnWay w p l` the path passes the place `l`
* `Apart S T`   neither of two places is in the other
* `Proper l`    the names of the place `l` lead one step down

## Key results

- `place_child`, `onWay_child`: the place of a child, and the way to it
- `Upward.onWay`: a path passes the places of those above it
- `place_of_isTop`: a path that has no directory to make stays where it starts
- `dirAt_of_createDirAll`: a directory that was made is there
-/

namespace GameInstaller

open Text (pieces)

namespace Disk

variable {w l cur : Location} {p q : Path}

/-! ## Places -/

/-- Where a name leads from a location. -/
def stepTo (cur : Location) (name : String) : Location :=
  if name = "." then cur else if name = ".." then cur.dropLast else cur ++ [name]

/-- Where names lead from a location, one after the other. -/
def placeFrom (cur : Location) (names : List String) : Location := names.foldl stepTo cur

/-- Where a path starts, seen from the directory `w`. -/
def origin (w : Location) (p : Path) : Location := if p.isAbsolute then [] else w

/-- The place of a path, seen from the directory `w`. -/
def place (w : Location) (p : Path) : Location := placeFrom (origin w p) (segments p.text)

/-- A path passes a place, which may be its end. -/
def OnWay (w : Location) (p : Path) (l : Location) : Prop :=
  ∃ front, front <+: segments p.text ∧ placeFrom (origin w p) front = l

@[simp] theorem placeFrom_nil (cur : Location) : placeFrom cur [] = cur := rfl

@[simp] theorem placeFrom_cons (cur : Location) (name : String) (names : List String) :
    placeFrom cur (name :: names) = placeFrom (stepTo cur name) names := rfl

theorem placeFrom_append (cur : Location) (names names' : List String) :
    placeFrom cur (names ++ names') = placeFrom (placeFrom cur names) names' :=
  List.foldl_append

@[simp] theorem stepTo_dot (cur : Location) : stepTo cur "." = cur := rfl

@[simp] theorem stepTo_up (cur : Location) : stepTo cur ".." = cur.dropLast := by
  rw [stepTo, if_neg (by decide), if_pos rfl]

theorem stepTo_of_ne {name : String} (hdot : name ≠ ".") (hup : name ≠ "..") :
    stepTo cur name = cur ++ [name] := by
  rw [stepTo, if_neg hdot, if_neg hup]

theorem onWay_place (w : Location) (p : Path) : OnWay w p (place w p) :=
  ⟨_, List.prefix_rfl, rfl⟩

/-- The places that a path passes can be listed. -/
theorem onWay_iff : OnWay w p l ↔ l ∈ (segments p.text).inits.map (placeFrom (origin w p)) := by
  simp [OnWay]

instance : Decidable (OnWay w p l) := decidable_of_iff _ onWay_iff.symm

/-- Neither of two places is the other, or inside it. -/
structure Apart (S T : Location) : Prop where
  left : ¬ S <+: T
  right : ¬ T <+: S

namespace Apart

variable {S T : Location} (h : Apart S T)

include h

theorem symm : Apart T S := ⟨h.right, h.left⟩

theorem outside (j : Location) : ¬ S <+: T ++ j := fun hS =>
  (List.prefix_or_prefix_of_prefix hS (List.prefix_append T j)).elim h.left h.right

theorem ne (i j : Location) : S ++ i ≠ T ++ j := fun hsame =>
  h.outside j (hsame ▸ List.prefix_append S i)

theorem append (i j : Location) : Apart (S ++ i) (T ++ j) where
  left hT := h.outside j ((List.prefix_append S i).trans hT)
  right hS := h.symm.outside i ((List.prefix_append T j).trans hS)

end Apart

section Child

variable {name : String}

theorem origin_child (hname : Path.IsName name) : origin w (p.child name) = origin w p := by
  rw [origin, origin, Path.isAbsolute_child p hname]

/-- A child has its place in that of the path. -/
theorem place_child (hname : Path.IsProper name) : place w (p.child name) = place w p ++ [name] := by
  rw [place, origin_child hname.toIsName, Path.segments_child p hname.toIsName, placeFrom_append,
    placeFrom_cons, placeFrom_nil, stepTo_of_ne hname.ne_dot hname.ne_up]
  rfl

/-- The way to a child goes by the way to the path. -/
theorem onWay_child (hname : Path.IsProper name) :
    OnWay w (p.child name) l ↔ OnWay w p l ∨ l = place w p ++ [name] := by
  rw [← place_child hname]
  unfold OnWay place
  rw [origin_child hname.toIsName, Path.segments_child p hname.toIsName]
  simp only [List.prefix_concat_iff, or_and_right, exists_or, exists_eq_left]
  rw [or_comm, eq_comm]

end Child

/-! ## The way to a path above -/

/-- A path stands in front of those that it is above. -/
theorem Upward.onWay (h : Upward p q) (hl : OnWay w q l) : OnWay w p l := by
  -- The text of a path above is the front of the path's, so its names are walked first.
  induction h with
  | self => exact hl
  | @parent q r _ hr htop ih =>
    obtain ⟨front, hfront, hplace⟩ := hl
    rcases Path.parent?_front hr with htop' | ⟨rest, htext, -⟩
    · rw [htop] at htop'
      cases htop'
    have hsegments := segments_of_append htext
    have hne : r.text.toList ≠ [] := by
      intro hnil
      obtain ⟨text⟩ := r
      obtain rfl : text = "" := by simpa using hnil
      exact absurd htop (by decide)
    have horigin : origin w q = origin w r := by
      obtain ⟨c, cs, hcs⟩ := List.exists_cons_of_ne_nil hne
      rw [origin, origin, Path.isAbsolute_eq, Path.isAbsolute_eq, htext, hcs]
      rfl
    refine ih ⟨front, ?_, by rw [horigin, hplace]⟩
    rw [hsegments]
    exact hfront.trans (List.prefix_append _ _)

/-! ## Names on the way -/

/-- Names that a path is walked by are neither empty nor have a slash. -/
theorem isName_of_mem_segments {text name : String} (h : name ∈ segments text) (hdot : name ≠ ".") :
    Path.IsName name := by
  obtain ⟨s, hs, rfl⟩ := List.mem_map.mp h
  obtain ⟨hpiece, hne⟩ := List.mem_filter.mp hs
  have hdot' : s ≠ ['.'] := by
    rintro rfl
    exact hdot rfl
  constructor
  · rw [String.toList_ofList]
    exact Text.not_mem_of_mem_pieces hpiece
  · rw [String.toList_ofList]
    simp_all [Path.isSilent]

/-- All names of a location lead one step down. -/
def Proper (l : Location) : Prop := ∀ name ∈ l, Path.IsProper name

instance : DecidablePred Path.IsProper := fun name =>
  decidable_of_iff
    ('/' ∉ name.toList ∧ Path.isSilent name.toList = false ∧ name.toList ≠ ['.', '.'])
    ⟨fun ⟨hslash, hsilent, hup⟩ => ⟨⟨hslash, hsilent⟩, hup⟩, fun h => ⟨h.slash, h.silent, h.up⟩⟩

instance : DecidablePred Proper := fun l => inferInstanceAs (Decidable (∀ name ∈ l, Path.IsProper name))

theorem Proper.dropLast (h : Proper l) : Proper l.dropLast :=
  fun name hmem => h name (List.dropLast_subset _ hmem)

theorem Proper.concat {name : String} (h : Proper cur) (hname : Path.IsName name)
    (hup : name ≠ "..") : Proper (cur ++ [name]) := by
  intro name' hmem
  rcases List.mem_append.mp hmem with hmem | hmem
  · exact h name' hmem
  · rw [List.mem_singleton.mp hmem]
    exact ⟨hname, fun h => hup (String.toList_injective h)⟩

theorem Proper.placeFrom {names : List String} (h : Proper cur)
    (hnames : ∀ name ∈ names, name ≠ "." → Path.IsName name) : Proper (placeFrom cur names) := by
  induction names generalizing cur with
  | nil => exact h
  | cons name rest ih =>
    obtain ⟨hname, hrest⟩ := List.forall_mem_cons.mp hnames
    refine ih ?_ hrest
    by_cases hdot : name = "."
    · rwa [hdot, stepTo_dot]
    by_cases hup : name = ".."
    · rw [hup, stepTo_up]
      exact h.dropLast
    · rw [stepTo_of_ne hdot hup]
      exact h.concat (hname hdot) hup

theorem Proper.place (h : Proper w) (p : Path) : Proper (place w p) := by
  refine Proper.placeFrom ?_ fun name hname => isName_of_mem_segments hname
  unfold origin
  split
  · exact fun _ hmem => absurd hmem List.not_mem_nil
  · exact h

/-! ## Paths without directories to make -/

theorem isSilent_of_dropSilentEnd {keepFirst : Bool} {segs : List (List Char)}
    (h : Path.dropSilentEnd keepFirst segs = []) : ∀ s ∈ segs, Path.isSilent s = true := by
  induction segs generalizing keepFirst with
  | nil => exact fun _ hs => absurd hs List.not_mem_nil
  | cons s rest ih =>
    rw [Path.dropSilentEnd] at h
    split at h
    · rename_i hrest
      split at h
      · rename_i hs
        exact List.forall_mem_cons.mpr ⟨(Bool.and_eq_true_iff.mp hs).1, ih hrest⟩
      · cases h
    · cases h

theorem isSilent_of_laterComponents {segs : List (List Char)} (h : Path.laterComponents segs = []) :
    ∀ s ∈ segs, Path.isSilent s = true := by
  simpa [Path.laterComponents] using h

/-- No piece of a path that has no directory to make is a name. -/
theorem isSilent_of_isTop (h : isTop p = true) :
    ∀ s ∈ pieces '/' p.text.toList, Path.isSilent s = true := by
  have hbody (hbody : p.body.2 = []) : ∀ s ∈ pieces '/' p.text.toList, Path.isSilent s = true := by
    unfold Path.body at hbody
    split at hbody
    · rename_i r hr
      rw [hr, ← List.nil_append ('/' :: r), Text.pieces_append]
      exact List.forall_mem_cons.mpr ⟨rfl, isSilent_of_dropSilentEnd hbody⟩
    · exact isSilent_of_dropSilentEnd hbody
  rcases Bool.or_eq_true_iff.mp h with hnone | hnone
  · have hcomponents : Path.componentsOf p.text.toList = [] := List.isEmpty_iff.mp hnone
    unfold Path.componentsOf at hcomponents
    split at hcomponents
    · cases hcomponents
    · split at hcomponents
      · cases hcomponents
      · exact isSilent_of_laterComponents hcomponents
  · refine hbody ?_
    rw [Option.isNone_iff_eq_none, Path.parent?] at hnone
    split at hnone
    · rename_i hb
      rw [hb]
    · cases hnone

/-- All names of a path that has no directory to make are dots. -/
theorem eq_dot_of_isTop (h : isTop p = true) : ∀ name ∈ segments p.text, name = "." := by
  intro name hname
  obtain ⟨s, hs, rfl⟩ := List.mem_map.mp hname
  obtain ⟨hpiece, hne⟩ := List.mem_filter.mp hs
  have hsilent := isSilent_of_isTop h s hpiece
  have hs : s = ['.'] := by
    simp_all [Path.isSilent]
  rw [hs]

/-- A walk over dots stays where it is. -/
theorem walk_dots {d : Disk} {names : List String} (hdots : ∀ name ∈ names, name = ".")
    (final : Final) (links : Nat) (cur : Location) (slash : Bool) :
    d.walk final links cur slash names = .ok ⟨cur, some .dir, slash, true⟩ := by
  induction names with
  | nil => rw [walk]
  | cons name rest ih =>
    obtain ⟨rfl, hrest⟩ := List.forall_mem_cons.mp hdots
    rw [walk, if_pos rfl, ih hrest]

/-- A path that ends in a name has a directory to make. -/
theorem isTop_of_resolve {d : Disk} {final : Final} {r : Resolved} (hr : d.resolve final p = .ok r)
    (hdots : r.dots = false) : isTop p = false := by
  by_contra htop
  rcases resolve_cases p with ⟨e, -, -, he⟩ | hresolve
  · rw [he] at hr
    cases hr
  · rw [hresolve, mapError_eq_ok, walk_dots (eq_dot_of_isTop (by simpa using htop))] at hr
    cases hr
    cases hdots

/-- A path that has no directory to make stays where it starts. -/
theorem place_of_isTop (h : isTop p = true) : place w p = origin w p := by
  have hdots := eq_dot_of_isTop h
  unfold place
  generalize origin w p = cur
  generalize segments p.text = names at hdots
  induction names with
  | nil => rfl
  | cons name rest ih =>
    obtain ⟨rfl, hrest⟩ := List.forall_mem_cons.mp hdots
    exact ih hrest

end Disk

end GameInstaller

/-! ## Directories that were made -/

namespace GameInstaller.Disk

variable {d d' : Disk} {p : Path}

/-- What was at a path is at it on every disk that extends the one before. -/
theorem Extends.pathExists (h : Extends d d') (hp : d.pathExists p = true) :
    d'.pathExists p = true := by
  unfold Disk.pathExists stat at hp
  cases hr : d.resolve .follow p with
  | error e => simp [hr] at hp
  | ok r =>
    have hn : r.node ≠ none := by
      intro hn
      simp [hr, hn] at hp
    obtain ⟨r', hr', hsame⟩ := h.resolve hr hn
    have hnode : r'.node.map Node.outline = r.node.map Node.outline := congrArg Resolved.node hsame
    cases hn' : r'.node with
    | none => simp [hn', eq_comm, hn] at hnode
    | some n => simp [Disk.pathExists, stat, hr', hn']

/-- A path leads to one place. -/
theorem DirAt.unique {l l' : Location} (h : DirAt d p l) (h' : DirAt d p l') : l = l' := by
  obtain ⟨r, hr, rfl, -⟩ := h
  obtain ⟨r', hr', rfl, -⟩ := h'
  cases hr.symm.trans hr'
  rfl

theorem dirAt_of_isDir (h : d.isDir p = true) : ∃ l, DirAt d p l := by
  unfold isDir stat at h
  cases hr : d.resolve .follow p with
  | error e => simp [hr] at h
  | ok r =>
    cases hn : r.node with
    | none => simp [hr, hn] at h
    | some n =>
      cases n with
      | dir => exact ⟨r.location, r, hr, rfl, hn⟩
      | file | link => simp [hr, hn, Node.isDir] at h

theorem dirAt_of_mkdir {u : Unit} (h : outcome (mkdir p) d = (.ok u, d')) : ∃ l, DirAt d' p l := by
  rcases mkdir_cases p d with ⟨e, hout⟩ | ⟨r, hr, hn, hout⟩
  · rw [hout] at h
    cases h
  · rw [hout] at h
    cases h
    have hentry := resolve_set_node .dir hr hn trivial
    exact ⟨_, _, resolve_final hentry trivial, rfl, rfl⟩

/-- Of directories that are made one after another, the last one is there. -/
theorem dirAt_of_mkdirs {todo : List Path} (h : outcome (mkdirs (todo ++ [p])) d = (.ok (), d')) :
    ∃ l, DirAt d' p l := by
  induction todo generalizing d with
  | nil =>
    rw [List.nil_append, outcome_mkdirs_cons] at h
    rcases hmkdir : outcome (mkdir p) d with ⟨e | u, d₁⟩
    · rw [hmkdir] at h
      dsimp only at h
      split at h
      · rename_i hthere
        cases h
        exact dirAt_of_isDir (Bool.and_eq_true_iff.mp hthere).2
      · cases h
    · rw [hmkdir] at h
      cases h
      exact dirAt_of_mkdir hmkdir
  | cons q todo ih =>
    rw [List.cons_append, outcome_mkdirs_cons] at h
    rcases hmkdir : outcome (mkdir q) d with ⟨e | u, d₁⟩
    · rw [hmkdir] at h
      dsimp only at h
      split at h
      · exact ih h
      · cases h
    · rw [hmkdir] at h
      exact ih h

/-- A climb puts what is still to make before what was to be made already. -/
theorem suffix_of_climb {fuel : Nat} {todo todo' : List Path}
    (h : outcome (climb fuel p todo) d = (.ok todo', d')) : todo <:+ todo' := by
  induction fuel generalizing p todo d with
  | zero =>
    cases h
    exact List.suffix_rfl
  | succ fuel ih =>
    cases htop : isTop p with
    | true =>
      rw [climb, if_pos htop] at h
      cases h
      exact List.suffix_rfl
    | false =>
      rw [outcome_climb htop] at h
      rcases hmkdir : outcome (mkdir p) d with ⟨e | u, d₁⟩
      · rw [hmkdir] at h
        dsimp only at h
        split at h
        · split at h
          · exact (List.suffix_cons p todo).trans (ih h)
          · cases h
            exact List.suffix_cons p todo
        · split at h
          · cases h
            exact List.suffix_rfl
          · cases h
      · rw [hmkdir] at h
        cases h
        exact List.suffix_rfl

/-- A path that has no directory to make leads to the one that it starts from. -/
theorem dirAt_of_isTop {name : String} (htop : isTop p = true) (hp : p.text ≠ "")
    (hname : Path.IsName name) (hfits : Fits p name) : ∃ l, DirAt d p l := by
  obtain ⟨rest, htext⟩ := p.child_text hname
  obtain ⟨hnul, hpath, -⟩ := hfits
  rw [htext, String.toList_append, List.mem_append, not_or] at hnul
  rw [htext, String.utf8ByteSize_append] at hpath
  refine ⟨if p.isAbsolute then [] else d.working,
    ⟨if p.isAbsolute then [] else d.working, some .dir, endsInSlash p.text, true⟩, ?_, rfl, rfl⟩
  rw [resolve, if_neg (by simpa using hnul.1), if_neg (by simpa using hp), if_neg (by omega),
    walk_dots (eq_dot_of_isTop htop)]
  rfl

/-- A directory that was made is there, if a name may stand behind its path. -/
theorem dirAt_of_createDirAll {name : String} (h : outcome (createDirAll p) d = (.ok (), d'))
    (hp : p.text ≠ "") (hname : Path.IsName name) (hfits : Fits p name) : ∃ l, DirAt d' p l := by
  unfold createDirAll at h
  cases htop : isTop p with
  | true => exact dirAt_of_isTop htop hp hname hfits
  | false =>
    rw [if_neg (by simp [htop])] at h
    obtain ⟨todo, d₁, hclimb, hmkdirs⟩ := outcome_bind_eq_ok.mp h
    rw [outcome_climb htop] at hclimb
    rcases hmkdir : outcome (mkdir p) d with ⟨e | u, d₂⟩
    · rw [hmkdir] at hclimb
      dsimp only at hclimb
      split at hclimb
      · -- The directory is left for last, on the way down.
        obtain ⟨above, rfl⟩ : ∃ above, todo = above ++ [p] := by
          split at hclimb
          · obtain ⟨above, habove⟩ := suffix_of_climb hclimb
            exact ⟨above, habove.symm⟩
          · cases hclimb
            exact ⟨[], rfl⟩
        exact dirAt_of_mkdirs hmkdirs
      · split at hclimb
        · rename_i hthere
          cases hclimb
          cases hmkdirs
          exact dirAt_of_isDir (Bool.and_eq_true_iff.mp hthere).2
        · cases hclimb
    · rw [hmkdir] at hclimb
      cases hclimb
      cases hmkdirs
      exact dirAt_of_mkdir hmkdir

end GameInstaller.Disk
