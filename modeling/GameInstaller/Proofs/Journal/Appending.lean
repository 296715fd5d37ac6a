import GameInstaller.Journal.Log
import GameInstaller.Proofs.Disk.Contents
import GameInstaller.Proofs.Path.Components

/-!
# Appending to journals

Appending an event makes the journal of its game when it is not there, adds one line to it, and
leaves all other files alone.  A journal that is there can always be appended to.

* `LiesAt`    where the journal of a game is
* `Accepts`   a disk on which events can be put into the journal of a game
* `textOf`    the content of a journal with these events
* `Grown`     what happens to a file that is only added to

## Key results

- `append_ok`: what appending an event does
- `LiesAt.accepts`: a journal that is there can be appended to
- `Page.snoc`: events that are appended one after the other make a page of the journal
-/

namespace GameInstaller.Journal

open Disk (outcome)

/-- The line of an event, with the end of the line. -/
def Stamped.bytes (s : Stamped) : ByteArray := (s.line ++ "\n").toUTF8

/-- The content of a journal with these events. -/
def textOf : List Stamped → ByteArray
  | [] => ByteArray.empty
  | s :: rest => s.bytes ++ textOf rest

theorem textOf_append (page page' : List Stamped) :
    textOf (page ++ page') = textOf page ++ textOf page' := by
  induction page with
  | nil => simp [textOf]
  | cons s page ih => rw [List.cons_append, textOf, textOf, ih, ByteArray.append_assoc]

/-- The journal of a game is a file at this location. -/
def LiesAt (d : Disk) (dir : Path) (game : String) (l : Location) : Prop :=
  ∃ p, logPath dir game = .ok p ∧ Disk.FileAt d p l

/-- Every event can be put into the journal of a game. -/
def Accepts (d : Disk) (dir : Path) (game : String) : Prop :=
  ∀ time e, (outcome (append time dir game e) d).1 = .ok ()

/-! ## Names -/

theorem isName_events : Path.IsName "events.jsonl" := ⟨by decide, by decide⟩

theorem isProper_events : Path.IsProper "events.jsonl" := ⟨isName_events, by decide⟩

/-- The path of a journal that is not refused. -/
theorem logPath_eq_ok {dir p : Path} {game : String} :
    logPath dir game = .ok p ↔ isSlug game = true ∧ (dir.child game).child "events.jsonl" = p := by
  unfold logPath
  split
  · rename_i h
    simp [h]
  · rename_i h
    simp [h]

/-! ## Appending -/

theorem outcome_onFailure {α : Type} (make : Disk.IoError → LogError) (x : Disk.Io α) (d : Disk) :
    outcome (onFailure make x) d = ((outcome x d).1.mapError make, (outcome x d).2) := by
  unfold onFailure
  rw [Disk.outcome_bind_of_ok (Disk.outcome_attempt _ _)]
  cases (outcome x d).1 <;> rfl

/-- The directory of the game is made first, and then the line is added to the journal. -/
theorem append_eq {game : String} (hslug : isSlug game = true) (time : String) (dir : Path)
    (e : Event) :
    let p := (dir.child game).child "events.jsonl"
    append time dir game e = (do
      onFailure (.noDirectory (dir.child game)) (Disk.createDirAll (dir.child game))
      onFailure (.notOpened p) (Disk.appendBytes p (Stamped.mk time e).bytes)) := by
  intro p
  have hparent : p.parent? = some (dir.child game) :=
    dir.parent?_child (Path.isName_of_isSlug hslug) isName_events
  simp only [append, logPath_eq_ok.mpr ⟨hslug, rfl⟩, hparent, Stamped.bytes, p]

/-- Appending an event adds its line to the journal of the game, which is made with the directories
    above it when it is not there, and leaves all other files alone. -/
theorem append_ok {time : String} {dir : Path} {game : String} {e : Event} {d d' : Disk}
    (h : outcome (append time dir game e) d = (.ok (), d')) :
    ∃ p l, logPath dir game = .ok p ∧ Disk.Appends d d' p (Stamped.mk time e).bytes l := by
  cases hslug : isSlug game with
  | false =>
    have hrefused : logPath dir game = .error (.invalidName game) := if_neg (by simp [hslug])
    unfold append at h
    rw [hrefused] at h
    cases h
  | true =>
    rw [append_eq hslug, Disk.outcome_bind, outcome_onFailure] at h
    have hdirs := Disk.createDirAll_addsDirs (dir.child game) d
    rcases hd : outcome (Disk.createDirAll (dir.child game)) d with ⟨r, d₁⟩
    rw [hd] at h hdirs
    cases r with
    | error e => cases h
    | ok u =>
      dsimp only [Except.mapError] at h
      rw [outcome_onFailure] at h
      rcases ha : outcome (Disk.appendBytes ((dir.child game).child "events.jsonl")
        (Stamped.mk time e).bytes) d₁ with ⟨r, d₂⟩
      rw [ha] at h
      cases r with
      | error e => cases h
      | ok u =>
        cases h
        obtain ⟨l, hl⟩ := Disk.appendBytes_ok ha
        exact ⟨_, l, logPath_eq_ok.mpr ⟨hslug, rfl⟩, hl.of_addsDirs hdirs⟩

/-- A slug is never refused as the name of a journal. -/
theorem append_ne_invalidName {game : String} (hslug : isSlug game = true) (time : String)
    (dir : Path) (e : Event) (d : Disk) (name : String) :
    (outcome (append time dir game e) d).1 ≠ .error (.invalidName name) := by
  rw [append_eq hslug, Disk.outcome_bind, outcome_onFailure]
  rcases outcome (Disk.createDirAll (dir.child game)) d with ⟨result, d'⟩
  cases result with
  | error e => nofun
  | ok u =>
    dsimp only [Except.mapError]
    rw [outcome_onFailure]
    cases (outcome (Disk.appendBytes _ (Stamped.mk time e).bytes) d').1 <;> nofun

/-- A journal that was appended to has a name that is not too long for a file. -/
theorem name_of_append {time : String} {dir : Path} {game : String} {e : Event} {d : Disk}
    (h : (outcome (append time dir game e) d).1 = .ok ()) : game.utf8ByteSize ≤ Disk.maxName := by
  obtain ⟨p, l, hp, happends⟩ := append_ok (Prod.ext h rfl)
  obtain ⟨hslug, rfl⟩ := logPath_eq_ok.mp hp
  obtain ⟨r, -, -, -, hr, -, -⟩ := happends.fileAt
  refine Disk.resolve_names _ _ hr game ?_
  rw [Path.segments_child _ isName_events, Path.segments_child _ (Path.isName_of_isSlug hslug)]
  simp

namespace LiesAt

variable {d d' : Disk} {dir : Path} {game : String} {l : Location}

/-- A journal that is there can be appended to. -/
theorem accepts (h : LiesAt d dir game l) : Accepts d dir game := by
  intro time e
  obtain ⟨p, hp, hfile⟩ := h
  obtain ⟨hslug, rfl⟩ := logPath_eq_ok.mp hp
  have hname := Path.isName_of_isSlug hslug
  -- The directory of the journal is on the way to it, so it need not be made.
  obtain ⟨r, _, _, _, hr, -⟩ := id hfile
  obtain ⟨r', hr', hdir⟩ := Disk.resolve_of_child isName_events (dir.child_text_ne hname) hr
  obtain ⟨d', hd'⟩ := Disk.appendBytes_of_fileAt hfile (Stamped.mk time e).bytes
  rw [append_eq hslug, Disk.outcome_bind, outcome_onFailure,
    Disk.outcome_createDirAll_of_isDir hr' hdir]
  dsimp only [Except.mapError]
  rw [outcome_onFailure, hd']
  rfl

theorem of_extends (h : LiesAt d dir game l) (hd : Disk.Extends d d') : LiesAt d' dir game l := by
  obtain ⟨p, hp, hfile⟩ := h
  exact ⟨p, hp, hd.fileAt hfile⟩

/-- A journal is in one place. -/
theorem unique {l' : Location} (h : LiesAt d dir game l) (h' : LiesAt d dir game l') : l = l' := by
  obtain ⟨p, hp, hfile⟩ := h
  obtain ⟨p', hp', hfile'⟩ := h'
  obtain rfl : p = p' := Except.ok.inj (hp.symm.trans hp')
  exact hfile.unique hfile'

end LiesAt

/-! ## Files that are only added to -/

/-- This content was added to the file at a location, and nothing else happened to it: journals that
    were there are there still. -/
structure Grown (d d' : Disk) (l : Location) (content : ByteArray) : Prop where
  liesAt : ∀ dir game, LiesAt d dir game l → LiesAt d' dir game l
  hasOneName : d.HasOneName l → d'.HasOneName l
  bytes : d'.bytesAt l = d.bytesAt l ++ content

/-- Nothing happened to the file at a location. -/
def Spares (d d' : Disk) (l : Location) : Prop := Grown d d' l ByteArray.empty

theorem Grown.trans {d d₁ d₂ : Disk} {l : Location} {content content' : ByteArray}
    (h : Grown d d₁ l content) (h' : Grown d₁ d₂ l content') :
    Grown d d₂ l (content ++ content') where
  liesAt dir game hl := h'.liesAt dir game (h.liesAt dir game hl)
  hasOneName hl := h'.hasOneName (h.hasOneName hl)
  bytes := by rw [h'.bytes, h.bytes, ByteArray.append_assoc]

namespace Spares

variable {d d₁ : Disk} {l : Location}

theorem of_sameFile (h : Disk.Extends d d₁) (hl : Disk.SameFile d d₁ l) : Spares d d₁ l where
  liesAt _ _ hlies := hlies.of_extends h
  hasOneName := hl.hasOneName
  bytes := by rw [hl.bytes, ByteArray.append_empty]

theorem refl : Spares d d l := .of_sameFile .refl .refl

theorem of_addsDirs (h : Disk.AddsDirs d d₁) : Spares d d₁ l := .of_sameFile h.extending (h.sameFile l)

end Spares

theorem Grown.spare {d d₁ d₂ : Disk} {l : Location} {content : ByteArray}
    (h : Grown d d₁ l content) (h' : Spares d₁ d₂ l) : Grown d d₂ l content := by
  have := h.trans h'
  rwa [ByteArray.append_empty] at this

/-- What of the events that are put into a journal at `l` is added at `k`. -/
def share (l : Location) (page : List Stamped) (k : Location) : ByteArray :=
  if k = l then textOf page else ByteArray.empty

theorem share_append (l : Location) (page page' : List Stamped) (k : Location) :
    share l (page ++ page') k = share l page k ++ share l page' k := by
  unfold share
  split
  · exact textOf_append _ _
  · rw [ByteArray.append_empty]

/-! ## Pages -/

/-- Since the disk was `d₀` these events were put into the journal of a game, which is at `l`.  The
    files at other locations are as they were, if they have one name and are among those that
    `spared` tells of. -/
structure Page (spared : Location → Prop) (d₀ d : Disk) (dir : Path) (game : String) (l : Location)
    (page : List Stamped) : Prop where
  liesAt : LiesAt d dir game l
  own : Grown d₀ d l (textOf page)
  others : ∀ k, spared k → d₀.HasOneName k → Grown d₀ d k (share l page k)

namespace Page

variable {spared : Location → Prop} {d₀ d d' : Disk} {dir : Path} {game : String} {l : Location}
  {page : List Stamped}

/-- A page begins with its first event. -/
theorem start (h : Accepts d dir game) (spared : Location → Prop) (time : String) (e : Event) :
    ∃ l, Disk.Extends d (outcome (append time dir game e) d).2 ∧
      Page spared d (outcome (append time dir game e) d).2 dir game l [⟨time, e⟩] := by
  rcases happend : outcome (append time dir game e) d with ⟨r, d'⟩
  have hok := h time e
  rw [happend] at hok
  obtain rfl : r = .ok () := hok
  obtain ⟨p, l, hp, hl⟩ := append_ok happend
  have htext : textOf [⟨time, e⟩] = (Stamped.mk time e).bytes := by
    rw [textOf, textOf, ByteArray.append_empty]
  have hown : Grown d d' l (textOf [⟨time, e⟩]) := {
    liesAt := fun _ _ hlies => hlies.of_extends hl.extending
    hasOneName := hl.hasOneName
    bytes := by rw [htext, hl.bytes] }
  refine ⟨l, hl.extending, ⟨p, hp, hl.fileAt⟩, hown, fun k _ hk => ?_⟩
  -- The journal has its share, and the other files have none.
  unfold share
  split
  · subst k
    exact hown
  · rename_i hne
    exact Spares.of_sameFile hl.extending (hl.others k hne hk)

/-- One more event comes to the same journal. -/
theorem snoc (h : Page spared d₀ d dir game l page) (time : String) (e : Event) :
    Page spared d₀ (outcome (append time dir game e) d).2 dir game l (page ++ [⟨time, e⟩]) := by
  obtain ⟨l', hextends, hpage⟩ := start h.liesAt.accepts spared time e
  -- The journal is where it was, so the event goes where those before it went.
  obtain rfl : l = l' := (h.liesAt.of_extends hextends).unique hpage.liesAt
  exact {
    liesAt := hpage.liesAt
    own := by
      rw [textOf_append]
      exact h.own.trans hpage.own
    others := fun k hspared hone => by
      have hk := h.others k hspared hone
      rw [share_append]
      exact hk.trans (hpage.others k hspared (hk.hasOneName hone)) }

/-- What spares the journal and the other files does not show. -/
theorem spare (h : Page spared d₀ d dir game l page) (hl : Spares d d' l)
    (hk : ∀ k, spared k → Spares d d' k) : Page spared d₀ d' dir game l page where
  liesAt := hl.liesAt _ _ h.liesAt
  own := h.own.spare hl
  others k hspared hone := (h.others k hspared hone).spare (hk k hspared)

end Page

end GameInstaller.Journal
