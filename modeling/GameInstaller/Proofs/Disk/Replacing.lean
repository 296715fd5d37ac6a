import GameInstaller.Disk.Calls
import GameInstaller.Proofs.Disk.Leaves
import GameInstaller.Proofs.Disk.Moving
import GameInstaller.Proofs.Disk.Naming

/-!
# Replacing files

A file is replaced in three calls of the system: the directories above it are made, the new content is
written to a file beside it, and that file is renamed.  Each of the calls may fail, the first two when
they have done a part of their work.

* `withParents`      the disk when the directories above a path were made
* `ReplaceCalls`     the calls that replacing a file makes
* `Faulty`           calls that may fail, also where those of the system succeed
* `Spare`            a path may be written to
* `Replaceable`      the file beside a path may be written to, and is another one
* `Kept`, `Swapped`  what replacing a file leaves when it fails, and when it succeeds
* `Names`            a path names an entry, and no slash is behind it
* `Accessible`       nothing is in the way of replacing a file

## Key results

- `stat_of_withParents`: making directories brings nothing under a path
- `Faulty.course`: the ways in which replacing a file goes
- `Course.kept`, `Course.swapped`: what each of them leaves
- `Accessible.outcome_replaceFile`: when replacing a file succeeds
-/

namespace GameInstaller.Disk

open Text (pieces)

variable {d d' d₁ : Disk} {p q parent : Path} {l S T : Location} {n : Node}

/-! ## Making the directories above a path -/

/-- The disk when the directories above a path were made, as far as they can be. -/
def withParents (d : Disk) (p : Path) : Disk := (outcome (makeParent p) d).2

theorem Tree.withParents (h : Tree d) (p : Path) : Tree (d.withParents p) :=
  (makeParent_paves p d).tree h

/-- A path goes on behind another one, by a name or by `..`. -/
def GoesOn (p q : Path) : Prop :=
  ∃ rest, p.text.toList = q.text.toList ++ '/' :: rest ∧
    ∃ s ∈ pieces '/' rest, Path.isSilent s = false

theorem GoesOn.trans {r : Path} (h : GoesOn p q) (h' : GoesOn q r) : GoesOn p r := by
  obtain ⟨rest, hp, s, hs, hsilent⟩ := h
  obtain ⟨rest', hq, -⟩ := h'
  refine ⟨rest' ++ '/' :: rest, ?_, s, ?_, hsilent⟩
  · rw [hp, hq, List.append_assoc, List.cons_append]
  · rw [Text.pieces_append]
    exact List.mem_append_right _ hs

theorem goesOn_of_parent? (hparent : p.parent? = some parent) (htop : isTop parent = false) :
    GoesOn p parent :=
  (Path.parent?_front hparent).resolve_left (by simp [htop])

/-- A path goes on behind each of the paths above it that can be made. -/
theorem goesOn_of_upward (hparent : p.parent? = some parent) (htop : isTop parent = false)
    (h : Upward parent q) : GoesOn p q := by
  induction h with
  | self => exact goesOn_of_parent? hparent htop
  | parent _ hr htop' ih => exact ih.trans (goesOn_of_parent? hr htop')

/-- A path goes on behind a path to a directory with nothing in it. -/
def Fresh (d : Disk) (p : Path) : Prop :=
  ∃ q l, DirAt d q l ∧ (∀ j ≠ [], d.find? (l ++ j) = none) ∧ GoesOn p q

/-- A walk through a directory with nothing in it comes to nothing. -/
theorem walk_bare {links : Nat} {cur : Location} {slash : Bool} {names : List String} {r : Resolved}
    (hbare : ∀ j ≠ [], d.find? (cur ++ j) = none) (hup : ".." ∉ names)
    (hname : ∃ name ∈ names, name ≠ ".") (h : walk d .follow links cur slash names = .ok r) :
    r.node = none := by
  induction names with
  | nil => simp at hname
  | cons name rest ih =>
    rw [List.mem_cons, not_or] at hup
    by_cases hdot : name = "."
    · rw [walk, if_pos hdot] at h
      obtain ⟨other, hother, hne⟩ := hname
      refine ih hup.2 ⟨other, ?_, hne⟩ h
      exact (List.mem_cons.mp hother).resolve_left fun heq => hne (heq.trans hdot)
    · rw [walk, if_neg hdot, if_neg (Ne.symm hup.1)] at h
      split at h
      · cases h
      · dsimp only at h
        rw [hbare [name] (by simp)] at h
        dsimp only at h
        split at h <;> cases h
        rfl

/-- A path through a new directory leads to nothing, unless it goes up again. -/
theorem Fresh.stat_ne (h : Fresh d p) (hup : ".." ∉ segments p.text) : d.stat .follow p ≠ .ok n := by
  obtain ⟨q, l, ⟨rq, hrq, rfl, hdir⟩, hbare, rest, htext, s, hs, hsilent⟩ := h
  intro hstat
  obtain ⟨r, hr, hn⟩ := stat_eq_ok_iff.mp hstat
  have hsegments := segments_of_append htext
  have hq : q.text ≠ "" := by
    rintro hempty
    simp [resolve, hempty] at hrq
  have htext' : p.text = q.text ++ String.ofList ('/' :: rest) := by
    apply String.toList_injective
    rw [htext, String.toList_append, String.toList_ofList]
  have hne : s ≠ [] := by
    rintro rfl
    cases hsilent
  have hname : ∃ name ∈ ((pieces '/' rest).filter fun s => !s.isEmpty).map String.ofList,
      name ≠ "." := by
    refine ⟨String.ofList s, List.mem_map_of_mem (List.mem_filter.mpr ⟨hs, by simpa using hne⟩), ?_⟩
    intro heq
    have hdot : s = ['.'] := by simpa using congrArg String.toList heq
    rw [hdot] at hsilent
    cases hsilent
  -- The walk comes to the empty directory first, and then goes on by a name.
  rw [hsegments, List.mem_append, not_or] at hup
  rcases resolve_cases p with ⟨e, -, -, he⟩ | hwalk
  · rw [he] at hr
    cases hr
  rcases resolve_cases q with ⟨e, -, -, he⟩ | hwalk'
  · rw [he] at hrq
    cases hrq
  rw [hwalk', mapError_eq_ok] at hrq
  obtain ⟨links, happend⟩ := walk_append hrq hdir
  rw [hwalk, mapError_eq_ok, hsegments, isAbsolute_of_front hq htext', happend _ _ _ (by
    obtain ⟨name, hmem, -⟩ := hname
    exact List.ne_nil_of_mem hmem)] at hr
  rw [walk_bare hbare hup.2 hname hr] at hn
  cases hn

/-- Directories were made of which a path goes on behind the last one, or none was. -/
def Freshens (p : Path) (d d' : Disk) : Prop := Tree d → Tree d' ∧ (d' = d ∨ Fresh d' p)

instance (p : Path) : IsPreorder Disk (Freshens p) where
  refl d htree := ⟨htree, .inl rfl⟩
  trans d d₁ d₂ h h' htree := by
    obtain ⟨htree₁, h₁⟩ := h htree
    obtain ⟨htree₂, rfl | hfresh⟩ := h' htree₁
    · exact ⟨htree₂, h₁⟩
    · exact ⟨htree₂, .inr hfresh⟩

theorem mkdir_freshens (h : GoesOn p q) : Leads (Freshens p) (mkdir q) := by
  intro d htree
  rcases mkdir_cases q d with ⟨e, hout⟩ | ⟨r, hr, hn, hout⟩
  · rw [hout]
    exact ⟨htree, .inl rfl⟩
  · rw [hout]
    obtain ⟨hfind, hparent⟩ := htree.resolve_ok hr
    have hnone : d.find? r.location = none := hfind.trans hn
    have hends : Ends .follow r.slash r.node := by rw [hn]; trivial
    have hmade := resolve_set_node .dir (resolve_final hr hends) hn trivial
    refine ⟨htree.set (htree.resolve_proper hr) hnone hparent .dir,
      .inr ⟨q, r.location, ⟨_, hmade, rfl, rfl⟩, fun j hj => ?_, h⟩⟩
    rw [find?_set_of_ne d (by simpa using hj), htree.none_of_front hnone]

theorem makeParent_freshens (p : Path) : Leads (Freshens p) (makeParent p) := by
  unfold makeParent
  cases hparent : p.parent? with
  | none => exact .of_quiet (.pure _)
  | some parent =>
    dsimp only
    refine Leads.about _ ?_
    cases htop : isTop parent with
    | true =>
      rw [createDirAll, if_pos htop]
      exact .of_quiet (.pure _)
    | false => exact .createDirAll fun q hq => mkdir_freshens (goesOn_of_upward hparent htop hq)

/-- Making the directories above a path brings nothing under it if the directory above it is there
    already, or the path never goes up. -/
theorem stat_of_withParents (htree : Tree d) (hdirect : HasParent d p ∨ ".." ∉ segments p.text)
    (h : (d.withParents p).stat .follow p = .ok n) : d.stat .follow p = .ok n := by
  unfold withParents at h
  rcases hdirect with hparent | hup
  · rwa [outcome_makeParent_of_hasParent hparent] at h
  · rcases (makeParent_freshens p d htree).2 with hsame | hfresh
    · rwa [hsame] at h
    · exact absurd h (hfresh.stat_ne hup)

theorem AddsDirs.stat (h : AddsDirs d d') (hstat : d.stat .follow p = .ok n) :
    d'.stat .follow p = .ok n := by
  obtain ⟨r, hr, hn⟩ := stat_eq_ok_iff.mp hstat
  exact stat_eq_ok_iff.mpr
    ⟨r, resolve_mono (fun _ _ => h.find?_eq) h.working hr (by simp [hn]), hn⟩

/-! ## Calls that may fail -/

theorem outcome_naming {α : Type} (p : Path) (x : Io α) (d : Disk) :
    outcome (naming p x) d = ((outcome x d).1.mapError (⟨p, ·⟩), (outcome x d).2) := by
  unfold naming
  rw [outcome_bind_of_ok (outcome_attempt _ _)]
  cases (outcome x d).1 <;> rfl

/-- The calls that replacing a file makes. -/
structure ReplaceCalls where
  createDirAll : Path → Io Unit
  writeBytes : Path → ByteArray → Io Unit
  rename : Path → Path → Io Unit

namespace ReplaceCalls

/-- The calls of the system. -/
def system : ReplaceCalls := ⟨Disk.createDirAll, Disk.writeBytes, Disk.rename⟩

/-- Replace a file by way of a file beside it, as `Disk.replaceFile` does by the calls of the system. -/
def replaceFile (calls : ReplaceCalls) (p : Path) (ext : String) (content : ByteArray) :
    Call PathError Unit := do
  if let some parent := p.parent? then naming parent (calls.createDirAll parent)
  let beside := p.withExtension ext
  naming beside (calls.writeBytes beside content)
  naming p (calls.rename beside p)

theorem replaceFile_system : system.replaceFile = Disk.replaceFile := rfl

/-- Each call does what that of the system does, or fails: when some of the directories were made that
    the system makes, when any number of the bytes were written, or before the renaming. -/
structure Faulty (calls : ReplaceCalls) : Prop where
  createDirAll : ∀ q d, outcome (calls.createDirAll q) d = outcome (Disk.createDirAll q) d ∨
    ∃ e d', outcome (calls.createDirAll q) d = (.error e, d') ∧ AddsDirs d d' ∧
      AddsDirs d' (outcome (Disk.createDirAll q) d).2
  writeBytes : ∀ q content d,
    outcome (calls.writeBytes q content) d = outcome (Disk.writeBytes q content) d ∨
      (∃ e, outcome (calls.writeBytes q content) d = (.error e, d)) ∨
      ∃ e k, outcome (calls.writeBytes q content) d =
        (.error e, (outcome (Disk.writeBytes q (content.extract 0 k)) d).2)
  rename : ∀ q q' d, outcome (calls.rename q q') d = outcome (Disk.rename q q') d ∨
    ∃ e, outcome (calls.rename q q') d = (.error e, d)

theorem faulty_system : Faulty system where
  createDirAll _ _ := .inl rfl
  writeBytes _ _ _ := .inl rfl
  rename _ _ _ := .inl rfl

end ReplaceCalls

/-- The ways in which replacing a file goes: it stops when directories were made, or when something was
    written to the file beside, or it succeeds. -/
inductive Course (d : Disk) (p beside : Path) (content : ByteArray) :
    Except PathError Unit × Disk → Prop
  | stopped {e : PathError} {d' : Disk} (made : AddsDirs d d')
      (left : AddsDirs d' (d.withParents p)) : Course d p beside content (.error e, d')
  | written {e : PathError} {b : ByteArray} {d' : Disk}
      (hwrite : outcome (writeBytes beside b) (d.withParents p) = (.ok (), d')) :
      Course d p beside content (.error e, d')
  | done {d₂ d' : Disk}
      (hwrite : outcome (writeBytes beside content) (d.withParents p) = (.ok (), d₂))
      (hrename : outcome (rename beside p) d₂ = (.ok (), d')) :
      Course d p beside content (.ok (), d')

namespace ReplaceCalls

variable {calls : ReplaceCalls}

namespace Faulty

variable (h : Faulty calls)
include h

/-- Writing that fails left the disk as it was, or wrote some content. -/
theorem write_error {content : ByteArray} {e : IoError}
    (hout : outcome (calls.writeBytes q content) d = (.error e, d')) :
    d' = d ∨ ∃ b, outcome (Disk.writeBytes q b) d = (.ok (), d') := by
  have hsystem (b : ByteArray) : (outcome (Disk.writeBytes q b) d).2 = d ∨
      outcome (Disk.writeBytes q b) d = (.ok (), (outcome (Disk.writeBytes q b) d).2) := by
    rw [Disk.writeBytes]
    rcases update_cases q (fun _ => b) newFileMode d with ⟨_, hout⟩ | ⟨_, _, _, _, _, _, hout⟩ |
      ⟨_, _, _, _, hout⟩ <;> rw [hout] <;> simp
  rcases h.writeBytes q content d with hsame | ⟨_, hsame⟩ | ⟨_, k, hpart⟩
  · refine .inl ?_
    have hfailed := hsystem content
    rw [← hsame, hout] at hfailed
    simpa using hfailed
  · rw [hout] at hsame
    exact .inl (Prod.mk.inj hsame).2
  · rw [hout] at hpart
    obtain ⟨-, rfl⟩ := Prod.mk.inj hpart
    exact (hsystem _).imp_right fun hok => ⟨_, hok⟩

theorem write_ok {content : ByteArray}
    (hout : outcome (calls.writeBytes q content) d = (.ok (), d')) :
    outcome (Disk.writeBytes q content) d = (.ok (), d') := by
  rcases h.writeBytes q content d with hsame | ⟨_, hfailed⟩ | ⟨_, _, hfailed⟩
  · rw [← hsame, hout]
  · rw [hout] at hfailed
    cases hfailed
  · rw [hout] at hfailed
    cases hfailed

/-- How replacing a file goes when the directories were made. -/
theorem course_of_made (p beside : Path) (content : ByteArray) (hadds : AddsDirs d (d.withParents p)) :
    Course d p beside content (outcome (do
      naming beside (calls.writeBytes beside content)
      naming p (calls.rename beside p)) (d.withParents p)) := by
  rw [outcome_bind, outcome_naming]
  rcases hwrite : outcome (calls.writeBytes beside content) (d.withParents p) with ⟨e | u, d₂⟩
  · rcases h.write_error hwrite with rfl | ⟨b, hb⟩
    · exact .stopped hadds .refl
    · exact .written hb
  · have hwritten := h.write_ok hwrite
    dsimp only [Except.mapError]
    rw [outcome_naming]
    rcases hrename : outcome (calls.rename beside p) d₂ with ⟨e | u, d₃⟩
    · -- A renaming that fails does nothing.
      have hkept : d₃ = d₂ := by
        rcases h.rename beside p d₂ with hsame | ⟨_, hsame⟩
        · rw [hsame] at hrename
          exact (rename_error hrename).1
        · rw [hrename] at hsame
          exact (Prod.mk.inj hsame).2
      subst hkept
      exact .written hwritten
    · have hrenamed : outcome (Disk.rename beside p) d₂ = (.ok (), d₃) := by
        rcases h.rename beside p d₂ with hsame | ⟨_, hfailed⟩
        · rw [← hsame, hrename]
        · rw [hrename] at hfailed
          cases hfailed
      exact .done hwritten hrenamed

/-- Replacing a file goes in one of these ways. -/
theorem course (p : Path) (ext : String) (content : ByteArray) (d : Disk) :
    Course d p (p.withExtension ext) content (outcome (calls.replaceFile p ext content) d) := by
  have hadds : AddsDirs d (d.withParents p) := makeParent_addsDirs p d
  have hrest := h.course_of_made p (p.withExtension ext) content hadds
  unfold ReplaceCalls.replaceFile
  cases hparent : p.parent? with
  | none =>
    have hsame : d.withParents p = d := by
      unfold withParents makeParent
      rw [hparent]
      rfl
    rw [hsame] at hrest
    exact hrest
  | some parent =>
    have hparents : d.withParents p = (outcome (Disk.createDirAll parent) d).2 := by
      unfold withParents makeParent
      rw [hparent]
      dsimp only
      rw [outcome_about]
    dsimp only
    rw [outcome_bind, outcome_naming]
    rcases h.createDirAll parent d with hsame | ⟨e, d', hfailed, hmade, hleft⟩
    · rw [hsame]
      rcases hout : outcome (Disk.createDirAll parent) d with ⟨e | u, d₁⟩
      · rw [hout] at hparents
        rw [hparents] at hadds
        exact .stopped hadds (hparents ▸ .refl)
      · rw [hout] at hparents
        rw [hparents] at hrest
        exact hrest
    · rw [hfailed]
      exact .stopped hmade (hparents ▸ hleft)

end Faulty

end ReplaceCalls

/-- A file that was replaced has a path that leads somewhere. -/
theorem resolve_of_replaceFile {p : Path} {ext : String} {content : ByteArray}
    (h : outcome (replaceFile p ext content) d = (.ok (), d')) :
    ∃ (d₁ : Disk) (r : Resolved), d₁.resolve .entry p = .ok r := by
  have hcourse := ReplaceCalls.faulty_system.course p ext content d
  rw [ReplaceCalls.replaceFile_system, h] at hcourse
  cases hcourse with
  | done _ hrename => exact ⟨_, resolve_of_rename hrename⟩

/-! ## What is left -/

/-- What a path names is no link, and is under no other name. -/
structure Spare (d : Disk) (p : Path) : Prop where
  link : ∀ S target, EntryAt d p S → d.find? S ≠ some (.link target)
  alone : ∀ S, EntryAt d p S → Alone d S

/-- Making the directories above a path brings nothing under it, and the file beside it is spare and
    not the one that the path leads to. -/
structure Replaceable (d : Disk) (p : Path) (ext : String) : Prop where
  direct : HasParent d p ∨ ".." ∉ segments p.text
  spare : Spare (d.withParents p) (p.withExtension ext)
  led : ∀ S r, EntryAt (d.withParents p) (p.withExtension ext) S →
    (d.withParents p).resolve .follow p = .ok r → r.location ≠ S

/-- A path leads to what it led to, and to nothing where it led to nothing; else nothing was lost or
    changed but what the path `beside` names, and only directories are new. -/
structure Kept (d d' : Disk) (p beside : Path) : Prop where
  stat : ∀ n, d'.stat .follow p = .ok n ↔ d.stat .follow p = .ok n
  others : ∀ l n, d.find? l = some n → ¬ EntryAt d' beside l → d'.find? l = some n
  added : ∀ l, d.find? l = none → (d'.find? l).isSome → ¬ EntryAt d' beside l →
    d'.find? l = some .dir

/-- What a path named is a file with this content, what the path `beside` named is gone, and nothing
    else changed.  If it was no link that the path named, the path leads to the file. -/
structure Swapped (d d' : Disk) (p beside : Path) (content : ByteArray) : Prop where
  file : ∃ T m shared, EntryAt d p T ∧ d'.find? T = some (.file content m shared)
  gone : ∃ S, EntryAt d beside S ∧ d'.find? S = none
  others : ∀ l, ¬ EntryAt d p l → ¬ EntryAt d beside l → d'.find? l = d.find? l
  holds : (∀ T target, EntryAt d p T → d.find? T ≠ some (.link target)) →
    d'.Holds p content ∧ ∀ n, d'.stat .entry beside ≠ .ok n

section Left

variable {ext : String} {content : ByteArray}

/-- Where directories were made, the path leads to what it led to. -/
theorem Kept.of_addsDirs (htree : Tree d) (hreplaceable : Replaceable d p ext) (hmade : AddsDirs d d')
    (hleft : AddsDirs d' (d.withParents p)) (beside : Path) : Kept d d' p beside where
  stat n := ⟨fun h => stat_of_withParents htree hreplaceable.direct (hleft.stat h), hmade.stat⟩
  others l n hl _ := hmade.find?_eq hl
  added l hnone hsome _ := by
    rcases hmade.dirs l with hsame | ⟨-, hdir⟩
    · rw [hsame, hnone] at hsome
      cases hsome
    · exact hdir

/-- Writing to the file beside a path leaves what the path leads to. -/
theorem Kept.of_filled (htree : Tree d) (hreplaceable : Replaceable d p ext)
    (hfilled : Filled (d.withParents p) d' (p.withExtension ext) S content) :
    Kept d d' p (p.withExtension ext) := by
  have hmade :=
    Kept.of_addsDirs htree hreplaceable (makeParent_addsDirs p d) .refl (p.withExtension ext)
  have hentry := hfilled.change.entryAt hfilled.entry
  have hother {l : Location} (hl : ¬ EntryAt d' (p.withExtension ext) l) :
      d'.find? l = (d.withParents p).find? l := by
    refine hfilled.change.others l ?_
    rintro rfl
    exact hl hentry
  have hnot {l : Location} (hl : ¬ EntryAt d' (p.withExtension ext) l) :
      ¬ EntryAt (d.withParents p) (p.withExtension ext) l := fun h => hl (hfilled.change.entryAt h)
  exact {
    stat := fun n => by
      rw [← hmade.stat]
      refine hfilled.change.stat_iff (fun l hl => ?_) (fun r hr => ?_) n
      · obtain ⟨m, shared, hfile⟩ := hfilled.file
        exact .inr ⟨_, m, shared, hl ▸ hfile⟩
      · exact hreplaceable.led S r hfilled.entry hr
    others := fun l n hl hbeside => by
      rw [hother hbeside]
      exact hmade.others l n hl (hnot hbeside)
    added := fun l hnone hsome hbeside => by
      rw [hother hbeside] at hsome ⊢
      exact hmade.added l hnone hsome (hnot hbeside) }

/-- Renaming the file that was written leaves it in the place of what the path named. -/
theorem Swapped.of_filled {beside : Path} (hfilled : Filled d d₁ beside S content)
    (hrename : outcome (rename beside p) d₁ = (.ok (), d')) (hT : EntryAt d₁ p T) (hne : S ≠ T) :
    Swapped d d' p beside content := by
  obtain ⟨m, shared, hfile⟩ := hfilled.file
  have hback : LeafChange (· = S) d₁ d :=
    hfilled.change.symm fun l hl => .inr ⟨_, m, shared, hl ▸ hfile⟩
  have hS := hfilled.change.entryAt hfilled.entry
  have hreplaced := rename_replaced hfilled.tree hrename hS hfile hT
    fun hone => hne (hfilled.alone T hone).symm
  have hT' := hback.entryAt hT
  have hfindT : d₁.find? T = d.find? T := hfilled.change.others T (Ne.symm hne)
  exact {
    file := ⟨T, m, shared, hT', hreplaced.arrived.trans hfile⟩
    gone := ⟨S, hfilled.entry, hreplaced.gone⟩
    others := fun l hl hl' => by
      -- The write changed nothing but `S`, and the renaming nothing but `S` and `T`.
      have hlS : l ≠ S := fun heq => hl' (heq ▸ hfilled.entry)
      rw [hreplaced.others l hlS (fun heq => hl (heq ▸ hT')), hfilled.change.others l hlS]
    holds := fun hlink => by
      have hlink' (target : String) : d₁.find? T ≠ some (.link target) :=
        hfindT ▸ hlink T target hT'
      refine ⟨hreplaced.holds hfile hlink', fun n hn => ?_⟩
      obtain ⟨r, hr, hlocation, hdots⟩ :=
        (hreplaced.change (.inr ⟨_, m, shared, hfile⟩) hlink').entryAt hS
      obtain ⟨r', hr', hnode⟩ := stat_eq_ok_iff.mp hn
      obtain rfl := Except.ok.inj (hr.symm.trans hr')
      rw [← (node_of_resolve hr hdots).2, hlocation, hreplaced.gone] at hnode
      cases hnode }

/-- Replacing a file that fails leaves the file as it was. -/
theorem Course.kept {e : PathError} (htree : Tree d) (hreplaceable : Replaceable d p ext)
    (h : Course d p (p.withExtension ext) content (.error e, d')) :
    Kept d d' p (p.withExtension ext) := by
  cases h with
  | stopped made left => exact .of_addsDirs htree hreplaceable made left _
  | written hwrite =>
    obtain ⟨S, hfilled⟩ := writeBytes_filled (htree.withParents p) hwrite hreplaceable.spare.link
      hreplaceable.spare.alone
    exact .of_filled htree hreplaceable hfilled

/-- Replacing a file that succeeds leaves the new file, and not the one beside it. -/
theorem Course.swapped {u : Unit} (htree : Tree d)
    (hspare : Spare (d.withParents p) (p.withExtension ext)) (hdot : '.' ∈ ext.toList)
    (hslash : '/' ∉ ext.toList) (h : Course d p (p.withExtension ext) content (.ok u, d')) :
    Swapped (d.withParents p) d' p (p.withExtension ext) content := by
  cases h with
  | done hwrite hrename =>
    obtain ⟨S, hfilled⟩ :=
      writeBytes_filled (htree.withParents p) hwrite hspare.link hspare.alone
    obtain ⟨_, T, hrenamed⟩ := rename_ok hrename
    have hS := hfilled.change.entryAt hfilled.entry
    exact .of_filled hfilled hrename hrenamed.target (hrenamed.target.ne_beside hdot hslash hS)

end Left

/-! ## Replacing files succeeds -/

/-- A path names the entry at a place, and no slash is behind it. -/
def Names (d : Disk) (p : Path) (l : Location) : Prop :=
  d.resolve .entry p = .ok ⟨l, d.find? l, false, false⟩

theorem Names.entryAt (h : Names d p l) : EntryAt d p l := ⟨_, h, rfl, rfl⟩

theorem Names.follow (h : Names d p l) (hleaf : Leaf d l) :
    d.resolve .follow p = .ok ⟨l, d.find? l, false, false⟩ :=
  resolve_final h hleaf.ends

/-- Entries that are no directories are apart. -/
theorem Tree.apart (h : Tree d) (hS : EntryAt d p S) (hT : EntryAt d q T)
    (hSdir : d.find? S ≠ some .dir) (hTdir : d.find? T ≠ some .dir) (hne : S ≠ T) : Apart S T := by
  have hnot {q : Path} {S T : Location} (hT : EntryAt d q T) (hS : d.find? S ≠ some .dir)
      (hne : S ≠ T) : ¬ S <+: T := by
    rintro ⟨j, rfl⟩
    obtain ⟨r, hr, hlocation, -⟩ := hT
    have hparent := (h.resolve_ok hr).2
    have hj : j ≠ [] := by simpa using Ne.symm hne
    rw [hlocation, List.dropLast_append_of_ne_nil hj] at hparent
    by_cases hfront : j.dropLast = []
    · rw [hfront, List.append_nil] at hparent
      exact hS hparent
    · exact hS (h.front hfront hparent)
  exact ⟨hnot hT hSdir hne, hnot hS hTdir (Ne.symm hne)⟩

/-- Where nothing or a file is, a file is written. -/
theorem exists_filled (htree : Tree d) (hS : Names d p S) (hleaf : Leaf d S) (halone : Alone d S)
    (content : ByteArray) :
    ∃ d', outcome (writeBytes p content) d = (.ok (), d') ∧ Filled d d' p S content := by
  have hr := hS.follow hleaf
  rcases hleaf with hnone | ⟨c, m, shared, hfile⟩
  · exact ⟨_, outcome_update_of_none hr hnone rfl _ _, filled_set htree hS.entryAt hnone content _⟩
  · exact ⟨_, outcome_update_of_file hr hfile _ _,
      filled_setContent htree hS.entryAt hfile halone content m⟩

/-- A file is renamed to what is no directory. -/
theorem outcome_rename_file {content : ByteArray} (hfilled : Filled d₁ d p S content)
    (hsplit : d.split = false) (hS : Names d p S) (hT : Names d q T) (hdir : d.find? T ≠ some .dir)
    (hne : S ≠ T) : ∃ d', outcome (rename p q) d = (.ok (), d') := by
  obtain ⟨m, shared, hfile⟩ := hfilled.file
  have hapart := hfilled.tree.apart hS.entryAt hT.entryAt (by simp [hfile]) hdir hne
  refine ⟨_, outcome_rename hsplit hS hT ⟨rfl, rfl⟩ hfile (.inr ⟨rfl, rfl⟩) hapart fun n hn => ?_⟩
  have hnot : n.isDir = false := by
    cases n with
    | dir => exact absurd hn hdir
    | file _ _ _ | link _ => rfl
  refine ⟨?_, hnot, by simp [hnot]⟩
  rw [← Bool.not_eq_true, sameFile_iff hfile hn hne]
  exact fun hone => hne (hfilled.alone T hone).symm

/-- Replacing a file succeeds if the directories above it can be made, the file beside it can be
    written, and there is no directory in its place. -/
theorem outcome_replaceFile {ext : String} (content : ByteArray) (htree : Tree d)
    (hsplit : d.split = false) (hmade : (outcome (makeParent p) d).1 = .ok ())
    (hS : Names (d.withParents p) (p.withExtension ext) S) (hleaf : Leaf (d.withParents p) S)
    (halone : Alone (d.withParents p) S) (hT : Names (d.withParents p) p T)
    (hdir : (d.withParents p).find? T ≠ some .dir) (hne : S ≠ T) :
    ∃ d', outcome (replaceFile p ext content) d = (.ok (), d') := by
  have hsplit₁ : (d.withParents p).split = false := (makeParent_paves p d).split.trans hsplit
  obtain ⟨d₂, hwrite, hfilled⟩ := exists_filled (htree.withParents p) hS hleaf halone content
  have hfindT : d₂.find? T = (d.withParents p).find? T := hfilled.change.others T (Ne.symm hne)
  obtain ⟨d', hrename⟩ := outcome_rename_file hfilled (hfilled.split.trans hsplit₁)
    (hfilled.change.resolve_entry hS rfl) (hfilled.change.resolve_entry hT rfl) (hfindT ▸ hdir) hne
  have hmade' : outcome (makeParent p) d = (.ok (), d.withParents p) := Prod.ext hmade rfl
  have hrest : outcome (do
      naming (p.withExtension ext) (writeBytes (p.withExtension ext) content)
      naming p (rename (p.withExtension ext) p)) (d.withParents p) = (.ok (), d') := by
    rw [outcome_bind, outcome_naming, hwrite]
    dsimp only [Except.mapError]
    rw [outcome_naming, hrename]
    rfl
  refine ⟨d', ?_⟩
  generalize d.withParents p = d₁ at hmade' hrest
  unfold replaceFile
  unfold makeParent at hmade'
  cases hparent : p.parent? with
  | none =>
    rw [hparent] at hmade'
    cases hmade'
    exact hrest
  | some parent =>
    rw [hparent] at hmade'
    dsimp only at hmade' ⊢
    rw [outcome_about_eq_ok] at hmade'
    rw [outcome_bind, outcome_naming, hmade']
    exact hrest

/-- The directories above a path can be made, and there the path and the one beside it name files or
    nothing, the latter no file with other names. -/
structure Accessible (d : Disk) (p : Path) (ext : String) : Prop where
  tree : Tree d
  split : d.split = false
  made : (outcome (makeParent p) d).1 = .ok ()
  beside : ∃ S, Names (d.withParents p) (p.withExtension ext) S ∧ Leaf (d.withParents p) S ∧
    Alone (d.withParents p) S
  target : ∃ T, Names (d.withParents p) p T ∧ Leaf (d.withParents p) T

namespace Accessible

variable {ext : String}

theorem spare (h : Accessible d p ext) : Spare (d.withParents p) (p.withExtension ext) := by
  obtain ⟨S, hS, hleaf, halone⟩ := h.beside
  constructor
  · intro k target hk
    obtain rfl := hk.unique hS.entryAt
    exact hleaf.not_link target
  · intro k hk
    obtain rfl := hk.unique hS.entryAt
    exact halone

theorem replaceable (h : Accessible d p ext) (hdot : '.' ∈ ext.toList) (hslash : '/' ∉ ext.toList)
    (hdirect : HasParent d p ∨ ".." ∉ segments p.text) : Replaceable d p ext where
  direct := hdirect
  spare := h.spare
  led := by
    intro k r hk hr
    obtain ⟨S, hS, -⟩ := h.beside
    obtain ⟨T, hT, hleaf⟩ := h.target
    rw [hT.follow hleaf] at hr
    cases hr
    exact Ne.symm (hT.entryAt.ne_beside hdot hslash hk)

/-- Where the directory above a path is there already, the disk stays as it is at first. -/
theorem of_hasParent (htree : Tree d) (hsplit : d.split = false) (hparent : HasParent d p)
    (hS : Names d (p.withExtension ext) S) (hleaf : Leaf d S) (halone : Alone d S)
    (hT : Names d p T) (hleafT : Leaf d T) : Accessible d p ext := by
  have hmade := outcome_makeParent_of_hasParent hparent
  have hsame : d.withParents p = d := congrArg Prod.snd hmade
  exact {
    tree := htree
    split := hsplit
    made := congrArg Prod.fst hmade
    beside := ⟨S, by rwa [hsame], by rwa [hsame], by rwa [hsame]⟩
    target := ⟨T, by rwa [hsame], by rwa [hsame]⟩ }

/-- What is accessible can be replaced. -/
theorem outcome_replaceFile (h : Accessible d p ext) (hdot : '.' ∈ ext.toList)
    (hslash : '/' ∉ ext.toList) (content : ByteArray) :
    ∃ d', outcome (replaceFile p ext content) d = (.ok (), d') ∧
      Swapped (d.withParents p) d' p (p.withExtension ext) content ∧ d'.Holds p content := by
  obtain ⟨S, hS, hleaf, halone⟩ := h.beside
  obtain ⟨T, hT, hleafT⟩ := h.target
  have hne := hT.entryAt.ne_beside hdot hslash hS.entryAt
  obtain ⟨d', hok⟩ := Disk.outcome_replaceFile content h.tree h.split h.made hS hleaf halone hT
    hleafT.not_dir hne
  have hcourse := ReplaceCalls.faulty_system.course p ext content d
  rw [ReplaceCalls.replaceFile_system, hok] at hcourse
  have hswapped := hcourse.swapped h.tree h.spare hdot hslash
  refine ⟨d', hok, hswapped, (hswapped.holds fun k target hk => ?_).1⟩
  obtain rfl := hk.unique hT.entryAt
  exact hleafT.not_link target

end Accessible

end GameInstaller.Disk
