import GameInstaller.Proofs.Disk.Beneath
import GameInstaller.Proofs.Disk.Contents
import GameInstaller.Proofs.Path.Splitting
import Mathlib.Order.Defs.Unbundled

/-!
# What calls lead to

The parent of a path is the front of its text.  Where a path leads somewhere its parent is a
directory that is there, or there is nothing above it to make, so making the parent succeeds.

The names in a directory are those of the entries in it.  A copy of a directory makes the target, and
then copies what is listed in the source by that time.

A comparison of the disks before and after a call that holds for all of its parts holds for the call.
Making a directory makes directories at its path and above; copying a file writes to the target.

* `Leads R x`   the call `x` leads from every disk to one that is related to it by `R`
* `Upward p q`  `q` is `p`, or above it

## Key results

- `Path.parent?_front`: what a parent is
- `outcome_createDirAll_parent`: the directory above what is there need not be made
- `mem_children_iff`: a name is listed when there is an entry under it
- `outcome_copyInto_file`, `outcome_copyInto_dir`: what a copy does first
- `Leads.createDirAll`, `Leads.copyFile`: calls by the calls that they are made of
-/

/-! ## Directories above files -/

namespace GameInstaller

open Text (pieces)

namespace Path

/-- The parent of a path is the root or empty, or it is the front of the path, and a name stands
    behind it. -/
theorem parent?_front {p q : Path} (h : p.parent? = some q) :
    Disk.isTop q = true ∨ ∃ rest, p.text.toList = q.text.toList ++ '/' :: rest ∧
      ∃ s ∈ pieces '/' rest, isSilent s = false := by
  obtain ⟨rooted, cs, hchars, -, hbody⟩ := p.body_cases
  have hslash (s : List Char) (hs : s ∈ pieces '/' cs) : '/' ∉ s := Text.not_mem_of_mem_pieces hs
  rcases dropSilentEnd_cases (!rooted) (pieces '/' cs) with hnil | ⟨front, last, _, hkept, -, -⟩
  · rw [parent?, hbody, hnil] at h
    cases h
  rw [hkept] at hbody
  rw [parent?_of_body hbody, Option.some.injEq] at h
  subst h
  rcases unsplit_front (!rooted) hslash hkept with hnil | ⟨rest, hrest, hname⟩
  · refine .inl ?_
    rw [hnil]
    cases rooted <;> decide
  · refine .inr ⟨rest, ?_, hname⟩
    rw [hchars, ← unsplit_pieces cs, hrest, String.toList_ofList]
    cases rooted <;> simp

end Path

namespace Disk

/-- A text that goes on behind a slash has the names before the slash and those behind it. -/
theorem segments_of_append {text front : String} {rest : List Char}
    (h : text.toList = front.toList ++ '/' :: rest) : segments text = segments front ++
      ((pieces '/' rest).filter fun s => !s.isEmpty).map String.ofList := by
  unfold segments
  rw [h, Text.pieces_append, List.filter_append, List.map_append]

/-- Where a path leads somewhere, the directory above it is there. -/
theorem outcome_createDirAll_parent {d : Disk} {final : Final} {p q : Path} {r : Resolved}
    (hq : p.parent? = some q) (hr : d.resolve final p = .ok r) :
    outcome (createDirAll q) d = (.ok (), d) := by
  rcases Path.parent?_front hq with htop | ⟨rest, htext, s, hs, hsilent⟩
  · rw [createDirAll, if_pos htop]
    rfl
  by_cases hempty : q.text = ""
  · have htop : isTop q = true := by
      obtain ⟨text⟩ := q
      obtain rfl : text = "" := hempty
      decide
    rw [createDirAll, if_pos htop]
    rfl
  have hne : s ≠ [] := by
    rintro rfl
    cases hsilent
  have htext' : p.text = q.text ++ String.ofList ('/' :: rest) := by
    apply String.toList_injective
    rw [htext, String.toList_append, String.toList_ofList]
  obtain ⟨r', hr', hdir⟩ := resolve_front hempty htext' (segments_of_append htext) (by
    simp only [ne_eq, List.map_eq_nil_iff, List.filter_eq_nil_iff, not_forall]
    exact ⟨s, hs, by simpa using hne⟩) hr
  exact outcome_createDirAll_of_isDir hr' hdir

end Disk

end GameInstaller

namespace GameInstaller.Disk

variable {d d' d₁ : Disk} {p src dst : Path} {l : Location}

/-! ## Directories -/

theorem isDir_iff : d.isDir p = true ↔ ∃ l, DirAt d p l := by
  unfold isDir stat DirAt
  cases d.resolve .follow p with
  | error e => simp
  | ok r =>
    cases hn : r.node with
    | none => simp [hn]
    | some n => cases n <;> simp [hn, Node.isDir]

/-- A path to a directory leads there still. -/
theorem DirAt.extends (h : DirAt d p l) (hd : Extends d d') : DirAt d' p l := by
  obtain ⟨r, hr, rfl, hdir⟩ := h
  obtain ⟨r', hr', hsame⟩ := hd.resolve hr (by simp [hdir])
  have hlocation : r'.outline.location = r.outline.location := congrArg _ hsame
  have hnode : r'.outline.node = r.outline.node := congrArg _ hsame
  refine ⟨r', hr', hlocation, ?_⟩
  rw [Resolved.outline, Resolved.outline, hdir] at hnode
  obtain ⟨n, hn, houtline⟩ := Option.map_eq_some_iff.mp hnode
  cases n with
  | dir => exact hn
  | file _ _ _ | link _ => cases houtline

theorem Extends.isDir (h : Extends d d') (hdir : d.isDir p = true) : d'.isDir p = true := by
  obtain ⟨l, hl⟩ := isDir_iff.mp hdir
  exact isDir_iff.mpr ⟨l, hl.extends h⟩

/-! ## Names -/

theorem mem_of_lookup {n : Node} {entries : List (Location × Node)} (h : lookup l entries = some n) :
    (l, n) ∈ entries := by
  induction entries with
  | nil => cases h
  | cons entry rest ih =>
    obtain ⟨k, m⟩ := entry
    rw [lookup] at h
    split at h
    · rename_i hk
      obtain rfl := Option.some.inj h
      rw [hk]
      exact List.mem_cons_self
    · exact List.mem_cons_of_mem _ (ih h)

theorem nameIn_eq_some_iff {dir : Location} {name : String} :
    nameIn dir l = some name ↔ l = dir ++ [name] := by
  unfold nameIn
  rcases List.eq_nil_or_concat l with rfl | ⟨front, last, rfl⟩
  · simp
  · simp [List.concat_eq_append, and_comm, eq_comm]

/-- A name is listed in a directory when there is an entry under it. -/
theorem mem_children_iff {name : String} :
    name ∈ d.children l ↔ (d.find? (l ++ [name])).isSome := by
  simp only [children, List.mem_filterMap, nameIn_eq_some_iff, find?, List.append_eq_nil_iff,
    List.cons_ne_nil, and_false, if_false]
  constructor
  · rintro ⟨⟨k, n⟩, hmem, rfl⟩
    exact lookup_isSome_of_mem hmem
  · intro hsome
    obtain ⟨n, hn⟩ := Option.isSome_iff_exists.mp hsome
    exact ⟨_, mem_of_lookup hn, rfl⟩

theorem DirAt.namesIn_eq (h : DirAt d p l) : d.namesIn p = d.children l := by
  obtain ⟨r, hr, rfl, -⟩ := h
  rw [namesIn, hr]

/-- What was listed is listed still. -/
theorem Extends.mem_namesIn (h : Extends d d') (hdir : d.isDir p = true) {name : String}
    (hname : name ∈ d.namesIn p) : name ∈ d'.namesIn p := by
  obtain ⟨l, hl⟩ := isDir_iff.mp hdir
  rw [hl.namesIn_eq, mem_children_iff, ← isSome_find?_outline] at hname
  obtain ⟨n, hn⟩ := Option.isSome_iff_exists.mp hname
  rw [(hl.extends h).namesIn_eq, mem_children_iff, ← isSome_find?_outline, h.keeps _ _ hn]
  rfl

/-! ## Copies -/

theorem about_createDirAll_addsDirs (p : Path) (d : Disk) :
    AddsDirs d (outcome (about p (createDirAll p)) d).2 := by
  rw [outcome_about]
  exact createDirAll_addsDirs p d

theorem makeParent_addsDirs (p : Path) (d : Disk) : AddsDirs d (outcome (makeParent p) d).2 := by
  unfold makeParent
  cases p.parent? with
  | none => exact .refl
  | some q => exact about_createDirAll_addsDirs q d

/-- Copy a file to where the directory above it may have to be made. -/
def copyOne (src dst : Path) : Fs Unit := do
  makeParent dst
  about src (copyFile src dst)

theorem outcome_copyInto_file (hdir : d.isDir src = false) (depth : Nat) (dst : Path) :
    outcome (copyInto (depth + 1) src dst) d = outcome (copyOne src dst) d := by
  rw [copyInto, outcome_bind_of_ok (outcome_get d), if_neg (by simp [hdir])]
  rfl

/-- A directory is copied by making the target, and then copying what is listed. -/
theorem outcome_copyInto_dir (hdir : d.isDir src = true) (depth : Nat) (dst : Path) :
    outcome (copyInto (depth + 1) src dst) d = match outcome (about dst (createDirAll dst)) d with
      | (.ok _, d₁) => outcome ((d₁.namesIn src).forM fun name =>
          copyInto depth (src.child name) (dst.child name)) d₁
      | (.error f, d₁) => (.error f, d₁) := by
  have hadds := about_createDirAll_addsDirs dst d
  rw [copyInto, outcome_bind_of_ok (outcome_get d), if_pos hdir]
  rcases hmade : outcome (about dst (createDirAll dst)) d with ⟨f | u, d₁⟩
  · rw [outcome_bind_of_error hmade]
  · rw [hmade] at hadds
    rw [outcome_bind_of_ok hmade, outcome_names (hadds.extending.isDir hdir) fun names =>
      names.forM fun name => copyInto depth (src.child name) (dst.child name)]

end GameInstaller.Disk

/-! ## Comparisons -/

namespace GameInstaller.Disk

variable {ε ε' α β : Type} {R : Disk → Disk → Prop}

/-- A call that leads from every disk to one that is related to it. -/
def Leads (R : Disk → Disk → Prop) (x : Call ε α) : Prop := ∀ d, R d (outcome x d).2

namespace Leads

theorem attempt {x : Call ε α} (hx : Leads R x) : Leads R (attempt x : Call ε' (Except ε α)) :=
  fun d => by
    rw [outcome_attempt]
    exact hx d

theorem about {x : Io α} (p : Path) (hx : Leads R x) : Leads R (about p x) := fun d => by
  rw [outcome_about]
  exact hx d

variable [IsPreorder Disk R]

theorem of_quiet {x : Call ε α} (hx : Quiet x) : Leads R x := fun d => by
  rw [hx d]
  exact refl_of R d

/-- What follows a call needs to lead on only from what the call gives. -/
theorem bind_of {x : Call ε α} {f : α → Call ε β} (hx : Leads R x)
    (hf : ∀ d a d', outcome x d = (.ok a, d') → R d' (outcome (f a) d').2) : Leads R (x >>= f) := by
  intro d
  have hd := hx d
  rcases hout : outcome x d with ⟨e | a, d₁⟩
  · rw [outcome_bind_of_error hout]
    rwa [hout] at hd
  · rw [outcome_bind_of_ok hout]
    rw [hout] at hd
    exact trans_of R hd (hf d a d₁ hout)

theorem bind {x : Call ε α} {f : α → Call ε β} (hx : Leads R x) (hf : ∀ a, Leads R (f a)) :
    Leads R (x >>= f) := hx.bind_of fun _ a d' _ => hf a d'

theorem forM {f : α → Call ε PUnit} (hf : ∀ a, Leads R (f a)) (xs : List α) :
    Leads R (xs.forM f) := by
  induction xs with
  | nil => exact of_quiet (.pure _)
  | cons x xs ih => exact (hf x).bind fun _ => ih

end Leads

/-! ## Making directories -/

/-- A path is another one, or a directory above it that can be made. -/
inductive Upward (p : Path) : Path → Prop
  | self : Upward p p
  | parent {q r : Path} (h : Upward p q) (hr : q.parent? = some r) (htop : isTop r = false) :
      Upward p r

theorem Upward.trans {p q r : Path} (h : Upward p q) (h' : Upward q r) : Upward p r := by
  induction h' with
  | self => exact h
  | parent _ hr htop ih => exact .parent ih hr htop

/-- What is left to make after a climb was to make before, or is the path or above it. -/
theorem climb_todo {fuel : Nat} {p : Path} {todo todo' : List Path} {d d' : Disk}
    (h : outcome (climb fuel p todo) d = (.ok todo', d')) :
    ∀ q ∈ todo', q ∈ todo ∨ (isTop p = false ∧ Upward p q) := by
  induction fuel generalizing p todo d with
  | zero =>
    cases h
    exact fun _ => .inl
  | succ fuel ih =>
    cases htop : isTop p with
    | true =>
      rw [climb, if_pos htop] at h
      cases h
      exact fun _ => .inl
    | false =>
      have hself (q : Path) (hq : q ∈ p :: todo) : q ∈ todo ∨ Upward p q := by
        rcases List.mem_cons.mp hq with rfl | hq
        · exact .inr .self
        · exact .inl hq
      rw [outcome_climb htop] at h
      rcases hmkdir : outcome (mkdir p) d with ⟨e | u, d₁⟩
      · rw [hmkdir] at h
        dsimp only at h
        split at h
        · cases hparent : p.parent? with
          | none =>
            rw [hparent] at h
            cases h
            simpa using hself
          | some q =>
            rw [hparent] at h
            intro r hr
            rcases ih h r hr with hr | ⟨htop', hr⟩
            · simpa using hself r hr
            · exact .inr ⟨rfl, (Upward.self.parent hparent htop').trans hr⟩
        · split at h
          · cases h
            exact fun _ => .inl
          · cases h
      · rw [hmkdir] at h
        cases h
        exact fun _ => .inl

namespace Leads

variable [IsPreorder Disk R]

theorem mkdirs {todo : List Path} (h : ∀ q ∈ todo, Leads R (mkdir q)) : Leads R (mkdirs todo) := by
  induction todo with
  | nil => exact .of_quiet (.pure _)
  | cons p rest ih =>
    obtain ⟨hp, hrest⟩ := List.forall_mem_cons.mp h
    unfold Disk.mkdirs
    refine hp.attempt.bind fun r => ?_
    split
    · exact ih hrest
    · refine (of_quiet (dirThere_quiet _ _)).bind fun there => ?_
      split
      · exact ih hrest
      · exact .of_quiet (.throw _)

theorem climb {p₀ : Path} (h : ∀ q, Upward p₀ q → Leads R (mkdir q)) (fuel : Nat) {p : Path}
    (hp : Upward p₀ p) (todo : List Path) : Leads R (climb fuel p todo) := by
  induction fuel generalizing p todo with
  | zero => exact .of_quiet (.pure _)
  | succ fuel ih =>
    unfold Disk.climb
    split
    · exact .of_quiet (.pure _)
    refine (h p hp).attempt.bind fun r => ?_
    split
    · exact .of_quiet (.pure _)
    split
    · split
      · rename_i parent hparent
        cases htop : isTop parent with
        | true =>
          have hquiet : Quiet (Disk.climb fuel parent (p :: todo)) := by
            cases fuel with
            | zero => exact .pure _
            | succ fuel =>
              rw [Disk.climb, if_pos htop]
              exact .pure _
          exact .of_quiet hquiet
        | false => exact ih (hp.parent hparent htop) _
      · exact .of_quiet (.pure _)
    · refine (of_quiet (dirThere_quiet _ _)).bind fun there => ?_
      split
      · exact .of_quiet (.pure _)
      · exact .of_quiet (.throw _)

/-- Making a directory with its parents makes directories at the path and above it. -/
theorem createDirAll {p : Path} (h : ∀ q, Upward p q → Leads R (mkdir q)) :
    Leads R (createDirAll p) := by
  unfold Disk.createDirAll
  split
  · exact .of_quiet (.pure _)
  · refine (climb h _ .self _).bind_of fun d todo d' hclimb => mkdirs (fun q hq => ?_) d'
    rcases climb_todo hclimb q hq with hq | ⟨-, hq⟩
    · cases hq
    · exact h q hq

/-- Making the parent of a path makes directories above it. -/
theorem makeParent {p : Path} (h : ∀ q, Upward p q → Leads R (mkdir q)) :
    Leads R (makeParent p) := by
  unfold Disk.makeParent
  cases hparent : p.parent? with
  | none => exact .of_quiet (.pure _)
  | some parent =>
    dsimp only
    refine about _ ?_
    cases htop : isTop parent with
    | true =>
      rw [Disk.createDirAll, if_pos htop]
      exact .of_quiet (.pure _)
    | false =>
      exact createDirAll fun q hq => h q ((Upward.self.parent hparent htop).trans hq)

/-! ## Copying -/

/-- Copying a file does nothing but to write to the target. -/
theorem copyFile {src dst : Path} (hupdate : ∀ change mode, Leads R (update dst change mode))
    (hchmod : ∀ mode, Leads R (chmod dst mode)) : Leads R (copyFile src dst) := by
  refine (of_quiet (.find _ _)).bind fun r => ?_
  split
  · exact .of_quiet (.fail _)
  · exact .of_quiet (.throw _)
  · exact .of_quiet (.fail _)
  · refine (hupdate _ _).bind fun _ => (of_quiet (readBytes_quiet _)).bind fun _ => ?_
    exact (hupdate _ _).bind fun _ => hchmod _

/-- Copying a file to where the directory above it may have to be made. -/
theorem copyOne {src dst : Path} (hmkdir : ∀ q, Upward dst q → Leads R (mkdir q))
    (hupdate : ∀ change mode, Leads R (update dst change mode))
    (hchmod : ∀ mode, Leads R (chmod dst mode)) : Leads R (copyOne src dst) :=
  (makeParent hmkdir).bind fun _ => (copyFile hupdate hchmod).about src

/-- Copying a tree makes directories and writes to files, and does nothing else. -/
theorem copyInto (hmkdir : ∀ q, Leads R (mkdir q))
    (hupdate : ∀ p change mode, Leads R (update p change mode))
    (hchmod : ∀ p mode, Leads R (chmod p mode)) (depth : Nat) (src dst : Path) :
    Leads R (copyInto depth src dst) := by
  induction depth generalizing src dst with
  | zero => exact .of_quiet (.throw _)
  | succ depth ih =>
    refine (of_quiet .get).bind fun d => ?_
    split
    · refine ((createDirAll fun q _ => hmkdir q).about dst).bind fun _ => ?_
      refine (of_quiet ((Quiet.find _ _).about _)).bind fun _ => (of_quiet .get).bind fun _ => ?_
      exact forM (fun name => ih _ _) _
    · exact copyOne (fun q _ => hmkdir q) (hupdate dst) (hchmod dst)

end Leads

end GameInstaller.Disk
