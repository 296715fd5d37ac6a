import GameInstaller.Proofs.Disk.Duplicating
import GameInstaller.Proofs.Disk.Heading
import GameInstaller.Proofs.Install.Journaling

/-!
# Journals of different games

The journal of a game has the slug of the game in its path, or a name that stands for no slug.  That
name is itself a slug, so the game that has it shares its journal with the games that have none.  All
other games have journals of their own: what is run for one of them leaves the journals of the others
alone, provided that no link leads from one journal to another.

* `Disk.content?`      the content of the file at a location, if there is one
* `Journal.Separate`   the journals of two games are different files
* `Journal.Unlinked`   there are no links on the last names of a journal's path
* `Job.Leaves`         no step of a job touches the journal of another game

## Key results

- `Game.journalName_eq_iff`: which games have a common journal
- `Journal.append_beside`: what appending to one journal does to another file
- `Job.separate`: what a run does to the journal of another game
- `journals_never_mix`: what runs of two games do to the journals of each other
-/

namespace GameInstaller

variable {σ : Type} {h : Host σ}

/-! ## Names of journals -/

/-- Games have a common journal if their slugs are the same, or if one has none and the other has the
    slug that stands for none. -/
theorem Game.journalName_eq_iff (g o : Game) : g.journalName = o.journalName ↔
    g.slug = o.slug ∨ (g.slug = "" ∧ o.slug = unnamed) ∨ (g.slug = unnamed ∧ o.slug = "") := by
  have hname (x : Game) : x.journalName = if x.slug = "" then unnamed else x.slug := by
    simp [journalName]
  rw [hname, hname]
  split <;> split
  · simp_all
  · rename_i hg ho
    simp [hg, ho, eq_comm]
  · rename_i hg ho
    simp [hg, ho]
  · rename_i hg ho
    simp [hg, ho]

/-! ## Files that are left alone -/

namespace Disk

variable {d d₁ d₂ d' : Disk} {p : Path} {k l : Location}

/-- The content of the file at a location, if there is one. -/
def content? (d : Disk) (l : Location) : Option ByteArray :=
  match d.find? l with
  | some (.file content _ _) => some content
  | _ => none

theorem content?_of_find? (h : d'.find? l = d.find? l) : d'.content? l = d.content? l := by
  rw [content?, content?, h]

theorem bytesAt_eq_content? (d : Disk) (l : Location) :
    d.bytesAt l = (d.content? l).getD ByteArray.empty := by
  unfold bytesAt content?
  rcases d.find? l with _ | _ | _ | _ <;> rfl

/-- The file at a location is as it was, no link was added, and no file got another name. -/
structure Beside (d d' : Disk) (k : Location) : Prop extends AddsNoLink d d' where
  content? : d'.content? k = d.content? k
  noNewNames : NoNewNames d d'

namespace Beside

theorem refl : Beside d d k := ⟨.refl, rfl, refl_of NoNewNames d⟩

theorem trans (h : Beside d d₁ k) (h' : Beside d₁ d₂ k) : Beside d d₂ k where
  toAddsNoLink := h.toAddsNoLink.trans h'.toAddsNoLink
  content? := h'.content?.trans h.content?
  noNewNames := trans_of NoNewNames h.noNewNames h'.noNewNames

/-- Making directories makes no file and changes none. -/
theorem of_addsDirs (h : AddsDirs d d') (k : Location) : Beside d d' k where
  toAddsNoLink := h.addsNoLink
  content? := by
    rcases h.dirs k with hsame | ⟨hnone, hdir⟩
    · exact content?_of_find? hsame
    · rw [Disk.content?, Disk.content?, hnone, hdir]
  noNewNames := h.noNewNames

/-- Different files stay different files. -/
theorem oneFile (h : Beside d d' k) {i j : Location} (hone : OneFile d' i j) : OneFile d i j := by
  rcases hone with rfl | ⟨c, m, c', m', id, hi, hj⟩
  · exact .refl d i
  · obtain ⟨c₁, m₁, hi'⟩ := h.noNewNames i c m id hi
    obtain ⟨c₂, m₂, hj'⟩ := h.noNewNames j c' m' id hj
    exact .inr ⟨c₁, m₁, c₂, m₂, id, hi', hj'⟩

end Beside

/-- Writing to a file leaves alone every other file than the one that the path heads for. -/
theorem update_beside (hp : Heads d p l) (hk : ¬ OneFile d l k) (change : ByteArray → ByteArray)
    (mode : Nat) : Beside d (outcome (update p change mode) d).2 k where
  toAddsNoLink := update_addsNoLink p change mode d
  noNewNames := update_noNewNames p change mode d
  content? := by
    rcases update_cases p change mode d with ⟨e, hout⟩ | ⟨r, c, m, shared, hr, hn, hout⟩ |
      ⟨r, hr, hn, -, hout⟩
    · rw [hout]
    · obtain ⟨-, -, hfind⟩ := resolve_entry d _ hr (by simp [hn])
      obtain rfl := hp.leadsTo r hr
      rw [hout]
      exact content?_of_find? (find?_setContent_of_not_oneFile (hfind.trans hn) hk _ _)
    · obtain rfl := hp.leadsTo r hr
      rw [hout]
      dsimp only
      exact content?_of_find? (find?_set_of_ne _ (fun hkl => hk (.inl hkl.symm)) _)

theorem appendBytes_beside (hp : Heads d p l) (hk : ¬ OneFile d l k) (content : ByteArray) :
    Beside d (outcome (appendBytes p content) d).2 k :=
  update_beside hp hk (· ++ content) newFileMode

end Disk

/-! ## Journals that are different files -/

namespace Journal

open Disk (Beside Heads OneFile)

variable {d d' : Disk} {dir : Path} {a b : String} {k l : Location}

/-- The paths of the journals of two games head for these two locations, which are not names of one
    file. -/
structure Separate (d : Disk) (dir : Path) (a b : String) (l k : Location) : Prop where
  left : ∀ p, logPath dir a = .ok p → Heads d p l
  right : ∀ p, logPath dir b = .ok p → Heads d p k
  distinct : ¬ OneFile d l k

theorem Separate.symm (h : Separate d dir a b l k) : Separate d dir b a k l where
  left := h.right
  right := h.left
  distinct hone := h.distinct <| by
    rcases hone with rfl | ⟨c, m, c', m', id, hk, hl⟩
    · exact .refl d k
    · exact .inr ⟨c', m', c, m, id, hl, hk⟩

theorem Separate.beside {j : Location} (h : Separate d dir a b l k) (hd : Beside d d' j) :
    Separate d' dir a b l k where
  left p hp := (h.left p hp).addsNoLink hd.toAddsNoLink
  right p hp := (h.right p hp).addsNoLink hd.toAddsNoLink
  distinct hone := h.distinct (hd.oneFile hone)

/-- Appending to one journal leaves alone every other file. -/
theorem append_beside (h : Separate d dir a b l k) (time : String) (e : Event) :
    Beside d (Disk.outcome (append time dir a e) d).2 k := by
  cases hslug : isSlug a with
  | false =>
    -- Under a name that is refused nothing is done.
    have hrefused : logPath dir a = .error (.invalidName a) := if_neg (by simp [hslug])
    unfold append
    rw [hrefused]
    exact .refl
  | true =>
    rw [append_eq hslug, Disk.outcome_bind, outcome_onFailure]
    have hdirs : Beside d (Disk.outcome (Disk.createDirAll (dir.child a)) d).2 k :=
      .of_addsDirs (Disk.createDirAll_addsDirs (dir.child a) d) k
    rcases hd : Disk.outcome (Disk.createDirAll (dir.child a)) d with ⟨r, d₁⟩
    rw [hd] at hdirs
    cases r with
    | error e => exact hdirs
    | ok u =>
      dsimp only [Except.mapError]
      rw [outcome_onFailure]
      -- The directories do not change where the journal is.
      have h₁ := h.beside hdirs
      have hheads := h₁.left _ (logPath_eq_ok.mpr ⟨hslug, rfl⟩)
      dsimp only
      exact hdirs.trans (Disk.appendBytes_beside hheads h₁.distinct _)

/-- No link stands on the last two names of a journal's path beneath the journal directory, and a
    journal that is there has no other name. -/
structure Unlinked (d : Disk) (D : Location) (a : String) : Prop where
  game : ∀ target, d.find? (D ++ [a]) ≠ some (.link target)
  events : ∀ target, d.find? (D ++ [a, "events.jsonl"]) ≠ some (.link target)
  hasOneName : d.HasOneName (D ++ [a, "events.jsonl"])

theorem Unlinked.heads {D : Location} (hD : Disk.GoesTo d dir D) (ha : Unlinked d D a) {p : Path}
    (hp : logPath dir a = .ok p) : Heads d p (D ++ [a, "events.jsonl"]) := by
  obtain ⟨hslug, rfl⟩ := logPath_eq_ok.mp hp
  exact hD.heads_child (Path.isProper_of_isSlug hslug) isProper_events ha.game ha.events

/-- Journals with different names are different files where no links are. -/
theorem separate_of_unlinked {D : Location} (hD : Disk.GoesTo d dir D) (ha : Unlinked d D a)
    (hb : Unlinked d D b) (hab : a ≠ b) :
    Separate d dir a b (D ++ [a, "events.jsonl"]) (D ++ [b, "events.jsonl"]) where
  left _ hp := ha.heads hD hp
  right _ hp := hb.heads hD hp
  distinct := by
    rintro (hsame | ⟨c, m, c', m', id, hl, -⟩)
    · exact hab (by simpa using hsame)
    · exact ha.hasOneName c m id hl

/-- There is no event without bytes. -/
theorem size_textOf_pos {page : List Stamped} (hpage : page ≠ []) : 0 < (textOf page).size := by
  obtain ⟨e, rest, rfl⟩ := List.exists_cons_of_ne_nil hpage
  have hbytes : e.bytes.size = e.line.utf8ByteSize + 1 := String.utf8ByteSize_append
  rw [textOf, ByteArray.size_append, hbytes]
  omega

end Journal

/-! ## Runs of two games -/

namespace Job

open Journal (Separate)

/-- In the run of the job from the state `s` no step touches the journal of another game, which is at
    `k`, or the paths to the journals. -/
def Leaves (on : h.JournalsOn) (j : Job) (other : String) (l k : Location) (s : σ) : Prop :=
  ∀ n step t, Executes h j.context j.game j.steps s n step t →
    let d := on.disk t
    let d' := on.disk ((step.execute h j.context j.game).run t).2
    d'.content? k = d.content? k ∧
      (Separate d j.dir j.game.journalName other l k → Separate d' j.dir j.game.journalName other l k)

/-- All that is done in a run leaves the journal of another game alone. -/
theorem separate_tracks (on : h.JournalsOn) {j : Job} {other : String} {l k : Location} {s : σ}
    (hs : Separate (on.disk s) j.dir j.game.journalName other l k) (hj : j.Leaves on other l k s) :
    Tracks h j.context j.game j.steps s fun _ t =>
      Separate (on.disk t) j.dir j.game.journalName other l k ∧
        (on.disk t).content? k = (on.disk s).content? k := by
  have hlog (t : σ) (e : Journal.Event)
      (ht : Separate (on.disk t) j.dir j.game.journalName other l k ∧
        (on.disk t).content? k = (on.disk s).content? k) :
      Separate (on.disk ((h.log j.context j.game e).run t).2) j.dir j.game.journalName other l k ∧
        (on.disk ((h.log j.context j.game e).run t).2).content? k = (on.disk s).content? k := by
    obtain ⟨time, hdisk⟩ := on.disk_log j.journaled j.game e t
    have hbeside := Journal.append_beside ht.1 time e
    rw [hdisk]
    exact ⟨ht.1.beside hbeside, hbeside.content?.trans ht.2⟩
  exact {
    opening := hlog (h.newRunId.run (h.clock.run s).2).2 _
      (by rw [on.disk_newRunId, on.disk_clock]; exact ⟨hs, rfl⟩)
    log := fun _ t e ht => hlog t e ht
    clock := fun _ t ht => by rwa [on.disk_clock]
    isCancelled := fun _ t ht => by rwa [on.disk_isCancelled]
    execute := fun _ n step t he ht => by
      obtain ⟨hcontent, hseparate⟩ := hj n step t he
      exact ⟨hseparate ht.1, hcontent.trans ht.2⟩ }

/-- A run leaves the journal of another game alone. -/
theorem separate (on : h.JournalsOn) {j : Job} {other : String} {l k : Location} {s : σ}
    (hs : Separate (on.disk s) j.dir j.game.journalName other l k) (hj : j.Leaves on other l k s) :
    Separate (on.disk (j.after h s)) j.dir j.game.journalName other l k ∧
      (on.disk (j.after h s)).content? k = (on.disk s).content? k := by
  obtain ⟨log, s₁, ha⟩ := run_account h j.context j.game j.steps j.errors s
  obtain ⟨-, -, hend⟩ := ha.traced (j.separate_tracks on hs hj)
  exact hend

/-- A run that nothing disturbs changes its journal. -/
theorem content?_ne (on : h.JournalsOn) {j : Job} {s : σ} {l : Location} (hj : j.Undisturbed on s)
    (hspares : j.Spares on s l) (hl : j.LiesAt (on.disk s) l) (hone : (on.disk s).HasOneName l) :
    (on.disk (j.after h s)).content? l ≠ (on.disk s).content? l := by
  obtain ⟨log, s₁, l', page, -, htrace, hpage⟩ := j.page on hj
  -- The journal is where it was, so it has the events of the run.
  have hothers := hpage.others l hspares hone
  obtain rfl : l' = l := hpage.liesAt.unique (hothers.liesAt _ _ hl)
  have hne : page ≠ [] := by
    obtain ⟨runId, traces, closing, -, -, hevents⟩ := htrace.shape
    rintro rfl
    cases hevents
  have hpos := Journal.size_textOf_pos hne
  intro hsame
  have hsize := congrArg ByteArray.size hpage.own.bytes
  rw [Disk.bytesAt_eq_content?, Disk.bytesAt_eq_content?, hsame, ByteArray.size_append] at hsize
  omega

end Job

/-- Runs of two games leave the journals of each other alone, in any order and number. -/
theorem inTurn_separate (on : h.JournalsOn) {dir : Path} {a b : String} {l k : Location}
    {jobs : List Job} {s : σ} (hs : Journal.Separate (on.disk s) dir a b l k)
    (hjobs : ∀ j ∈ jobs, j.dir = dir ∧ (j.game.journalName = a ∨ j.game.journalName = b))
    (hsteps : InTurn h id (fun j t => (j.game.journalName = a → j.Leaves on b l k t) ∧
      (j.game.journalName = b → j.Leaves on a k l t)) jobs s) :
    InTurn h id (fun j t => Journal.Separate (on.disk t) dir a b l k ∧
      (j.game.journalName = a → (on.disk (j.after h t)).content? k = (on.disk t).content? k) ∧
      (j.game.journalName = b → (on.disk (j.after h t)).content? l = (on.disk t).content? l))
      jobs s := by
  -- By induction on the jobs: after each of them the journals are still different files.
  induction jobs generalizing s with
  | nil => trivial
  | cons j jobs ih =>
    obtain ⟨hj, hjobs⟩ := List.forall_mem_cons.mp hjobs
    obtain ⟨⟨ha, hb⟩, hrest⟩ := hsteps
    obtain ⟨rfl, hgame⟩ := hj
    have hleft (hname : j.game.journalName = a) :
        Journal.Separate (on.disk (j.after h s)) j.dir a b l k ∧
          (on.disk (j.after h s)).content? k = (on.disk s).content? k := by
      subst hname
      exact j.separate on hs (ha rfl)
    have hright (hname : j.game.journalName = b) :
        Journal.Separate (on.disk (j.after h s)) j.dir a b l k ∧
          (on.disk (j.after h s)).content? l = (on.disk s).content? l := by
      subst hname
      obtain ⟨hseparate, hcontent⟩ := j.separate on hs.symm (hb rfl)
      exact ⟨hseparate.symm, hcontent⟩
    have hafter : Journal.Separate (on.disk (j.after h s)) j.dir a b l k :=
      hgame.elim (fun hname => (hleft hname).1) fun hname => (hright hname).1
    exact ⟨⟨hs, fun hname => (hleft hname).2, fun hname => (hright hname).2⟩,
      ih hafter hjobs hrest⟩

/-- Where the journal of a game is beneath the journal directory. -/
def Game.journalAt (D : Location) (g : Game) : Location := D ++ [g.journalName, "events.jsonl"]

/-- Two games have a common journal only if their slugs are the same, or if one has none and the other
    has the one that stands for none.  All others have journals of their own: where no link leads from
    one to the other, the runs of two games that do not touch the journals in their steps leave the
    journals of each other as they are, in any order and number. -/
theorem journals_never_mix (on : h.JournalsOn) (dir : Path) (s : σ) :
    (∀ g o : Game, g.journalName = o.journalName ↔
      g.slug = o.slug ∨ (g.slug = "" ∧ o.slug = unnamed) ∨ (g.slug = unnamed ∧ o.slug = "")) ∧
    (∃ D, Disk.GoesTo (on.disk s) dir D) ∧
    ∀ D, Disk.GoesTo (on.disk s) dir D → ∀ g o : Game, g.slug ≠ o.slug →
      ¬ (g.slug = "" ∧ o.slug = unnamed) → ¬ (g.slug = unnamed ∧ o.slug = "") →
      (∀ x ∈ [g, o], Journal.Unlinked (on.disk s) D x.journalName) →
      ∀ jobs : List Job, (∀ j ∈ jobs, j.dir = dir ∧ (j.game = g ∨ j.game = o)) →
      InTurn h id (fun j t =>
        (j.game = g → j.Leaves on o.journalName (g.journalAt D) (o.journalAt D) t) ∧
        (j.game = o → j.Leaves on g.journalName (o.journalAt D) (g.journalAt D) t)) jobs s →
      InTurn h id (fun j t =>
        let t' := j.after h t
        Journal.Separate (on.disk t) dir g.journalName o.journalName (g.journalAt D)
          (o.journalAt D) ∧
        (j.game = g →
          (on.disk t').content? (o.journalAt D) = (on.disk t).content? (o.journalAt D)) ∧
        (j.game = o →
          (on.disk t').content? (g.journalAt D) = (on.disk t).content? (g.journalAt D))) jobs s := by
  refine ⟨Game.journalName_eq_iff, Disk.exists_goesTo _ _, ?_⟩
  intro D hD g o hslug hnone hnone' hlinks jobs hjobs hsteps
  have hne : g.journalName ≠ o.journalName := by
    rw [Ne, Game.journalName_eq_iff]
    tauto
  have hs := Journal.separate_of_unlinked hD (hlinks g (by simp)) (hlinks o (by simp)) hne
  -- The jobs of a game are those with its journal.
  have hgame : ∀ j ∈ jobs, (j.game.journalName = g.journalName → j.game = g) ∧
      (j.game.journalName = o.journalName → j.game = o) := by
    intro j hj
    rcases (hjobs j hj).2 with hg | ho
    · exact ⟨fun _ => hg, fun hname => absurd (hg ▸ hname) hne⟩
    · exact ⟨fun hname => absurd (ho ▸ hname).symm hne, fun _ => ho⟩
  have hnames : ∀ j ∈ jobs, j.dir = dir ∧
      (j.game.journalName = g.journalName ∨ j.game.journalName = o.journalName) := fun j hj =>
    ⟨(hjobs j hj).1, (hjobs j hj).2.imp (congrArg _) (congrArg _)⟩
  have hleaves := hsteps.imp (Q := fun j t =>
      (j.game.journalName = g.journalName →
        j.Leaves on o.journalName (g.journalAt D) (o.journalAt D) t) ∧
      (j.game.journalName = o.journalName →
        j.Leaves on g.journalName (o.journalAt D) (g.journalAt D) t))
    fun j hj t ht => ⟨fun hname => ht.1 ((hgame j hj).1 hname),
      fun hname => ht.2 ((hgame j hj).2 hname)⟩
  refine (inTurn_separate on hs hnames hleaves).imp fun j _ t ht => ⟨ht.1, ?_, ?_⟩
  · exact fun hg => ht.2.1 (congrArg _ hg)
  · exact fun ho => ht.2.2 (congrArg _ ho)

/-- The game that has the slug that stands for none gets the events of a game without a slug, though
    no step of it touches anything and no link is there. -/
theorem exists_journals_mixed :
    let h := Machine.host (.new "linux") ⟨"/c"⟩
    ∃ (j : Job) (o : Game) (m : Machine) (p : Path) (l : Location),
      j.game.slug ≠ o.slug ∧ j.steps = [] ∧ (∀ k target, m.disk.find? k ≠ some (.link target)) ∧
      Journal.logPath j.dir o.journalName = .ok p ∧ Disk.FileAt m.disk p l ∧
      (j.after h m).disk.content? l ≠ m.disk.content? l := by
  intro h
  let on := Machine.journalsOn (.new "linux") ⟨"/c"⟩
  let context : Context := { Context.ofGameDir ⟨"/g"⟩ none with journalDir := some ⟨"/s"⟩ }
  let j : Job := ⟨context, ⟨"/s"⟩, rfl, ⟨"", "", ""⟩, [], []⟩
  let empty : Disk.Node := .file ByteArray.empty Disk.newFileMode none
  let m : Machine := ⟨⟨[(["s"], .dir), (["s", "unnamed"], .dir),
    (["s", "unnamed", "events.jsonl"], empty)], [], false⟩, ⟨[]⟩, default⟩
  have hfile : Disk.FileAt m.disk ⟨"/s/unnamed/events.jsonl"⟩ ["s", "unnamed", "events.jsonl"] := by
    have hresolve : m.disk.resolve .follow ⟨"/s/unnamed/events.jsonl"⟩ =
        .ok ⟨["s", "unnamed", "events.jsonl"], some empty, false, false⟩ := by
      rw [Disk.resolve_absolute _ _ ["s", "unnamed", "events.jsonl"] (by decide)]
      simp (disch := decide) [Disk.walk_cons, Disk.walkAt, m, empty, Disk.find?, Disk.lookup]
      rfl
    exact ⟨_, _, _, _, hresolve, rfl, rfl⟩
  have hpath : Journal.logPath ⟨"/s"⟩ "unnamed" = .ok ⟨"/s/unnamed/events.jsonl"⟩ :=
    Journal.logPath_eq_ok.mpr ⟨by decide, by decide +kernel⟩
  have hlies : j.LiesAt (on.disk m) ["s", "unnamed", "events.jsonl"] := ⟨_, hpath, hfile⟩
  have hlinks : ∀ k target, m.disk.find? k ≠ some (.link target) := by
    intro k target
    simp only [Disk.find?, Disk.lookup, m, empty]
    repeat' split
    all_goals simp
  have hone : m.disk.HasOneName ["s", "unnamed", "events.jsonl"] := by
    simp [Disk.HasOneName, m, empty, Disk.find?, Disk.lookup]
  have hnone (k : Nat) (step : Step) (t : Machine) : ¬ Executes h context j.game [] m k step t :=
    fun he => by cases he.getElem?
  have hj : j.Undisturbed on m :=
    ⟨hlies.accepts, fun k step t _ he => absurd he (hnone k step t)⟩
  have hspares : j.Spares on m ["s", "unnamed", "events.jsonl"] :=
    fun k step t he => absurd he (hnone k step t)
  exact ⟨j, ⟨"unnamed", "", ""⟩, m, _, _, by decide, rfl, hlinks, hpath, hfile,
    j.content?_ne on hj hspares hlies hone⟩

/-- Two games are installed, one of them twice, and none has a journal at first. -/
theorem journals_never_mix_two_games :
    let h := Machine.host (.new "linux") ⟨"/c"⟩
    let on := Machine.journalsOn (.new "linux") ⟨"/c"⟩
    let context : Context := { Context.ofGameDir ⟨"/g"⟩ none with journalDir := some ⟨"/s"⟩ }
    let game (slug : String) : Game := ⟨slug, slug, "linux"⟩
    let job (slug : String) : Job :=
      ⟨context, ⟨"/s"⟩, rfl, game slug, [⟨0, "mkdir", .string "data"⟩], []⟩
    let jobs := ["baz", "qux", "baz"].map job
    let m : Machine := ⟨⟨[(["g"], .dir), (["s"], .dir)], [], false⟩, ⟨[]⟩, default⟩
    Disk.GoesTo m.disk ⟨"/s"⟩ ["s"] ∧
      (∀ x ∈ [game "baz", game "qux"], Journal.Unlinked m.disk ["s"] x.journalName) ∧
      InTurn h id (fun j t => j.game = game "baz" →
        (on.disk (j.after h t)).content? ["s", "qux", "events.jsonl"] =
          (on.disk t).content? ["s", "qux", "events.jsonl"]) jobs m := by
  intro h on context game job jobs m
  let machine : h.OnMachine := Machine.onMachine _ _
  have hdisk (t : Machine) : machine.disk t = on.disk t := rfl
  have hD : Disk.GoesTo m.disk ⟨"/s"⟩ ["s"] := by
    obtain ⟨D, hD⟩ := Disk.exists_goesTo m.disk ⟨"/s"⟩
    have hsegments : Disk.segments "/s" = ["s"] := by decide
    have hwalk : m.disk.walk .follow Disk.maxLinks (Disk.origin m.disk.working ⟨"/s"⟩) false
        (Disk.segments "/s") = .ok ⟨["s"], some .dir, false, false⟩ := by
      rw [hsegments, Disk.walk_cons _ _ (by decide) (by decide) (by decide)]
      rfl
    obtain rfl : ["s"] = D := hD _ .refl _ _ hwalk
    exact hD
  have hlinks : ∀ x ∈ [game "baz", game "qux"], Journal.Unlinked m.disk ["s"] x.journalName := by
    intro x hx
    have hnone : ∀ rest ≠ [], m.disk.find? ("s" :: rest) = none := by
      intro rest hrest
      simp [Disk.find?, Disk.lookup, m, hrest]
    exact ⟨fun target => by simp [hnone], fun target => by simp [hnone],
      fun _ _ _ => by simp [hnone]⟩
  have hleaves (slug other : String) (l k : Location) (t : Machine) :
      (job slug).Leaves on other l k t := by
    intro n step u he
    obtain rfl : step = ⟨0, "mkdir", .string "data"⟩ :=
      List.mem_singleton.mp (List.mem_of_getElem? he.getElem?)
    have ho : (⟨0, "mkdir", .string "data"⟩ : Step).operation = .ok (.mkdir "data") := rfl
    have hdirs := Step.addsDirs_of_mkdir machine context (game slug) ho u
    rw [hdisk, hdisk] at hdirs
    have hbeside := Disk.Beside.of_addsDirs hdirs k
    exact ⟨hbeside.content?, fun hseparate => hseparate.beside hbeside⟩
  have hsteps : InTurn h id (fun j t =>
      (j.game = game "baz" → j.Leaves on "qux" ["s", "baz", "events.jsonl"]
        ["s", "qux", "events.jsonl"] t) ∧
      (j.game = game "qux" → j.Leaves on "baz" ["s", "qux", "events.jsonl"]
        ["s", "baz", "events.jsonl"] t)) jobs m := by
    refine .of_forall fun j hj t => ?_
    obtain ⟨slug, -, rfl⟩ := List.mem_map.mp hj
    exact ⟨fun _ => hleaves _ _ _ _ t, fun _ => hleaves _ _ _ _ t⟩
  have hall := (journals_never_mix on ⟨"/s"⟩ m).2.2 ["s"] hD (game "baz") (game "qux") (by decide)
    (by decide) (by decide) hlinks jobs (by
      intro j hj
      obtain ⟨slug, hslug, rfl⟩ := List.mem_map.mp hj
      obtain rfl | rfl | rfl : slug = "baz" ∨ slug = "qux" ∨ slug = "baz" := by simpa using hslug
      · exact ⟨rfl, .inl rfl⟩
      · exact ⟨rfl, .inr rfl⟩
      · exact ⟨rfl, .inl rfl⟩) hsteps
  exact ⟨hD, hlinks, hall.imp fun j _ t ht => ht.2.1⟩

end GameInstaller
