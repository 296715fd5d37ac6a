import GameInstaller.Proofs.Disk.Beneath
import GameInstaller.Proofs.Journal.Appending
import GameInstaller.Proofs.Json.Objects
import GameInstaller.Proofs.Text
import Mathlib.Algebra.Group.Nat.Defs

/-!
# No event is lost

The line of an event holds neither a line break nor nothing but blanks, whatever texts are in the
event, and the event is read back from it.  So the events of a journal are those of its lines.

In a directory of their own, journals hold just the events that were appended to them: for each game
those of that game, in order, each with its time, whatever was appended to the journals of others.

* `Legible`    values, events and pages whose numbers are read as they were written
* `Bound`      the tree of a directory of journals with these pages
* `Holds`      a disk on which the journals have these pages
* `appended`   the events that were appended for a game
* `Lossless`   journals give back what was appended to them

## Key results

- `ofLine?_line`: an event is read back from its line
- `eventsOfText_pageText`: the events of a page are read back from its text
- `read_of_holds`: what is read from a journal
- `append_step`: what appending an event does to the journals
- `journal_lossless`: events that are appended one after the other are read back
-/

namespace GameInstaller

open Json (Value ReadsOff Plain)
open Decimal

instance (r : Option Value) (n : Number) : Decidable (r = some (.number n)) :=
  match r with
  | some (.number m) => decidable_of_iff (m = n) (by simp)
  | none | some .null | some (.bool _) | some (.string _) | some (.array _) | some (.object _) =>
    isFalse (by simp)

/-- Texts, flags, whole numbers below 2⁶⁴, and other numbers that are read as they were written. -/
inductive Json.Legible : Value → Prop where
  | string (s : String) : Legible (.string s)
  | bool (b : Bool) : Legible (.bool b)
  | nat (n : Nat) (h : n < 2 ^ 64) : Legible (.nat n)
  | real (x : Binary64)
    (h : Json.read? (Json.numberText (.real x)).toList = some (.number (.real x))) :
    Legible (.number (.real x))

namespace Json.Legible

variable {v : Value}

theorem readsOff (h : Legible v) : ReadsOff v := by
  cases h with
  | string s => exact readsOff_string s
  | bool b => exact readsOff_bool b
  | nat n h => exact readsOff_nat (Nat.le_pred_of_lt h)
  | real x h => exact readsOff_real h

theorem plain (h : Legible v) : Plain v.compact := by
  cases h with
  | string s => exact plain_string s
  | bool b => exact plain_bool b
  | nat n h => exact plain_nat n
  | real x h => exact plain_real x

end Json.Legible

namespace Journal

/-- All numbers of an event are read as they were written. -/
def Event.Legible (e : Event) : Prop := ∀ f ∈ e.fields, Json.Legible f.2

/-! ## Lines -/

/-- The entries on the line of an event. -/
def Stamped.entries (s : Stamped) : List (String × Value) := ("ts", .string s.time) :: s.event.entries

theorem Stamped.legible {s : Stamped} (h : s.event.Legible) : ∀ f ∈ s.entries, Json.Legible f.2 :=
  List.forall_mem_cons.mpr ⟨.string _, List.forall_mem_cons.mpr ⟨.string _, h⟩⟩

/-- The fields of an event are read from its entries. -/
theorem ofFields?_entries (s : Stamped) : Event.ofFields? s.event.kind s.entries = some s.event := by
  obtain ⟨time, event⟩ := s
  cases event <;>
    simp [Stamped.entries, Event.entries, Event.fields, Event.kind, Event.ofFields?, Event.text?,
      Event.count?, Event.real?, Event.flag?, Event.only?, Value.nat]

theorem kind_entries (s : Stamped) : Event.kindOrPosition? s.entries = some s.event.kind := by
  obtain ⟨time, event⟩ := s
  cases event <;>
    simp [Stamped.entries, Event.entries, Event.fields, Event.kindOrPosition?, Event.only?, Value.nat]

theorem time_entries (s : Stamped) : Event.text? s.entries "ts" = some s.time := by
  obtain ⟨time, event⟩ := s
  cases event <;>
    simp [Stamped.entries, Event.entries, Event.fields, Event.text?, Event.only?, Value.nat]

/-- An event is read back from its line. -/
theorem ofLine?_line {s : Stamped} (h : s.event.Legible) :
    Stamped.ofLine? s.line.toList = some s := by
  have hread : Json.read? s.line.toList = some (.object s.entries) :=
    Json.read?_object (List.cons_ne_nil _ _) fun f hf => (Stamped.legible h f hf).readsOff
  rw [Stamped.ofLine?, hread]
  dsimp only
  rw [time_entries, kind_entries]
  simp only [Option.bind_eq_bind, Option.bind_some, ofFields?_entries]
  rfl

/-- The line of an event is one line. -/
theorem plain_line {s : Stamped} (h : s.event.Legible) : Plain s.line :=
  Json.plain_object fun f hf => (Stamped.legible h f hf).plain

/-- The line of an event is not blank. -/
theorem line_not_blank (s : Stamped) : s.line.toList.all Text.isBlank = false := by
  have hline : s.line.toList = '{' :: _ := Json.object_toList s.entries
  rw [hline, List.all_cons, (by decide : Text.isBlank '{' = false), Bool.false_and]

/-! ## Pages -/

/-- The text of a journal with these events. -/
def pageText : List Stamped → String
  | [] => ""
  | s :: rest => s.line ++ "\n" ++ pageText rest

theorem textOf_eq (page : List Stamped) : textOf page = (pageText page).toUTF8 := by
  induction page with
  | nil => rfl
  | cons s rest ih => rw [textOf, pageText, Text.toUTF8_append, ih, Stamped.bytes]

theorem pageText_toList (page : List Stamped) :
    (pageText page).toList = (page.map fun s => s.line.toList).flatMap fun l => l ++ ['\n'] := by
  induction page with
  | nil => rfl
  | cons s rest ih =>
    rw [pageText, String.toList_append, String.toList_append, ih, List.map_cons, List.flatMap_cons]
    rfl

/-- The lines of a journal are those of its events. -/
theorem lines_pageText {page : List Stamped} (h : ∀ s ∈ page, s.event.Legible) :
    Text.lines (pageText page).toList = page.map fun s => s.line.toList := by
  rw [pageText_toList]
  refine Text.lines_of_ended fun l hl => ?_
  obtain ⟨s, hs, rfl⟩ := List.mem_map.mp hl
  have hplain := plain_line (h s hs)
  exact ⟨fun hc => absurd (hplain _ hc) (by decide), fun hc => absurd (hplain _ hc) (by decide)⟩

theorem eventsOf_lines {page : List Stamped} (h : ∀ s ∈ page, s.event.Legible) (p : Path) (n : Nat) :
    eventsOf p n (page.map fun s => s.line.toList) = .ok page := by
  induction page generalizing n with
  | nil => rfl
  | cons s rest ih =>
    rw [List.map_cons, eventsOf, ofLine?_line (h s List.mem_cons_self)]
    dsimp only
    rw [ih fun s' hs' => h s' (List.mem_cons_of_mem _ hs')]
    rfl

/-- The events of a journal are read back from its text. -/
theorem eventsOfText_pageText {page : List Stamped} (h : ∀ s ∈ page, s.event.Legible) (p : Path) :
    eventsOfText p (pageText page) = .ok page := by
  have hfilter : (page.map fun s => s.line.toList).filter (fun l => !l.all Text.isBlank) =
      page.map fun s => s.line.toList := by
    refine List.filter_eq_self.mpr fun l hl => ?_
    obtain ⟨s, -, rfl⟩ := List.mem_map.mp hl
    rw [line_not_blank]
    rfl
  rw [eventsOfText, lines_pageText h, hfilter]
  exact eventsOf_lines h p 1

end Journal

end GameInstaller

namespace GameInstaller.Journal

open Disk (outcome series DirAt Fits Bare Beneath)

variable {dir : Path} {l : Location} {d₀ d : Disk} {tree : Location → Option Disk.Node}
  {pages : String → List Stamped} {game : String}

/-! ## What journals hold -/

/-- The file of a journal; there is none before the first event. -/
def fileOf : List Stamped → Option Disk.Node
  | [] => none
  | s :: rest => some (.file (textOf (s :: rest)) Disk.newFileMode none)

/-- The names of the directory and of the file of a journal fit. -/
def Room (dir : Path) (game : String) : Prop :=
  Fits dir game ∧ Fits (dir.child game) "events.jsonl"

/-- The tree of a directory of journals with these pages: a directory for each game, and its journal
    in it. -/
structure Bound (dir : Path) (tree : Location → Option Disk.Node) (pages : String → List Stamped) :
    Prop where
  dirs : ∀ game, (tree [game] = some .dir ∧ Fits dir game) ∨ tree [game] = none ∧ pages game = []
  files : ∀ game, tree [game, "events.jsonl"] = fileOf (pages game)
  room : ∀ game, pages game ≠ [] → Room dir game

/-- The journals in the directory at `l` have these pages. -/
def Holds (dir : Path) (l : Location) (d₀ d : Disk) (pages : String → List Stamped) : Prop :=
  ∃ tree, Beneath d₀ d l tree ∧ Bound dir tree pages

theorem Holds.start (hbare : Bare d₀ l) : Holds dir l d₀ d₀ fun _ => [] :=
  ⟨_, hbare, fun _ => .inr ⟨rfl, rfl⟩, fun _ => rfl, fun _ h => absurd rfl h⟩

namespace Bound

/-- There is one more directory, with nothing in it. -/
theorem withDir (h : Bound dir tree pages) (hfits : Fits dir game) :
    Bound dir (Function.update tree [game] (some .dir)) pages where
  dirs other := by
    by_cases hother : other = game
    · subst hother
      exact .inl ⟨by simp, hfits⟩
    · rw [Function.update_of_ne (by simpa using hother)]
      exact h.dirs other
  files other := by
    rw [Function.update_of_ne (by simp), h.files]
  room := h.room

/-- An event is added to a journal, or begins one. -/
theorem withEvent (h : Bound dir tree pages) (hdir : tree [game] = some .dir)
    (hroom : Room dir game) (s : Stamped) :
    Bound dir (Function.update tree [game, "events.jsonl"]
        (some (.file (textOf (pages game ++ [s])) Disk.newFileMode none)))
      (Function.update pages game (pages game ++ [s])) where
  dirs other := by
    rw [Function.update_of_ne (by simp)]
    by_cases hother : other = game
    · subst hother
      exact .inl ⟨hdir, hroom.1⟩
    · rw [Function.update_of_ne hother]
      exact h.dirs other
  files other := by
    by_cases hother : other = game
    · subst hother
      rw [Function.update_self, Function.update_self]
      cases pages other <;> rfl
    · rw [Function.update_of_ne (by simpa using hother), Function.update_of_ne hother, h.files]
  room other hother := by
    by_cases heq : other = game
    · exact heq ▸ hroom
    · rw [Function.update_of_ne heq] at hother
      exact h.room other hother

end Bound

/-! ## Reading -/

/-- Reading a journal gives its events, and changes nothing. -/
theorem read_of_holds (h : Holds dir l d₀ d pages) (hdir : DirAt d₀ dir l) (hbare : Bare d₀ l)
    (hslug : isSlug game = true) (hlegible : ∀ s ∈ pages game, s.event.Legible) :
    outcome (read dir game) d = (.ok (pages game), d) := by
  obtain ⟨tree, hdisk, hbound⟩ := h
  have hname := Path.isProper_of_isSlug hslug
  have hdirAt := hdisk.dirAt hbare hdir
  have hgone (hno : d.pathExists ((dir.child game).child "events.jsonl") = false) :
      outcome (read dir game) d = (.ok [], d) := by
    rw [read, logPath_eq_ok.mpr ⟨hslug, rfl⟩]
    dsimp only
    rw [Disk.outcome_bind_of_ok (Disk.outcome_get d), hno]
    rfl
  rcases hbound.dirs game with ⟨hgame, hfits⟩ | ⟨hgame, hnone⟩
  · have hgameAt : DirAt d (dir.child game) (l ++ [game]) :=
      hdirAt.child hname hfits (by rw [hdisk.inside _ (by simp), hgame])
    have hfile : d.find? (l ++ [game] ++ ["events.jsonl"]) = fileOf (pages game) := by
      rw [List.append_assoc, hdisk.inside _ (by simp)]
      exact hbound.files game
    cases hpage : pages game with
    | nil =>
      rw [hpage] at hfile
      exact hgone (hgameAt.not_pathExists isProper_events hfile)
    | cons s rest =>
      have hroom := (hbound.room game (by simp [hpage])).2
      rw [hpage] at hfile hlegible
      have hr := hgameAt.resolve_child isProper_events hroom (fun target htarget => by
        rw [hfile] at htarget
        cases htarget) .follow
      rw [hfile, fileOf, textOf_eq] at hr
      have hthere : d.pathExists ((dir.child game).child "events.jsonl") = true := by
        simp [Disk.pathExists, Disk.stat, hr]
      rw [read, logPath_eq_ok.mpr ⟨hslug, rfl⟩]
      dsimp only
      rw [Disk.outcome_bind_of_ok (Disk.outcome_get d), hthere, if_neg (by simp),
        Disk.outcome_bind, outcome_onFailure, Disk.outcome_readText_of_file hr rfl]
      dsimp only [Except.mapError]
      rw [eventsOfText_pageText hlegible]
      rfl
  · rw [hnone]
    refine hgone (hdirAt.not_pathExists_of_none hname ?_ isName_events)
    rw [hdisk.inside _ (by simp), hgame]

/-! ## Appending -/

/-- The directory of a game is made, or is there. -/
theorem makeDir_step (h : Holds dir l d₀ d pages) (hdir : DirAt d₀ dir l) (hbare : Bare d₀ l)
    (hslug : isSlug game = true) (hfits : Fits dir game) :
    ∃ d' tree, outcome (Disk.createDirAll (dir.child game)) d = (.ok (), d') ∧
      Beneath d₀ d' l tree ∧ Bound dir tree pages ∧ tree [game] = some .dir := by
  obtain ⟨tree, hdisk, hbound⟩ := h
  have hname := Path.isProper_of_isSlug hslug
  have hdirAt := hdisk.dirAt hbare hdir
  rcases id (hbound.dirs game) with ⟨hgame, -⟩ | ⟨hgame, -⟩
  · obtain ⟨r, hr, -, hn⟩ := hdirAt.child hname hfits (by rw [hdisk.inside _ (by simp), hgame])
    exact ⟨d, tree, Disk.outcome_createDirAll_of_isDir hr hn, hdisk, hbound, hgame⟩
  · have hnone : d.find? (l ++ [game]) = none := by rw [hdisk.inside _ (by simp), hgame]
    exact ⟨_, _, Disk.outcome_createDirAll_of_none hdirAt hname hfits hnone,
      hdisk.set (by simp) .dir, hbound.withDir hfits, by simp⟩

/-- The line of an event is added to the journal of the game, which is made for the first one. -/
theorem addLine_step (hdisk : Beneath d₀ d l tree) (hbound : Bound dir tree pages)
    (hgame : tree [game] = some .dir) (hdir : DirAt d₀ dir l) (hbare : Bare d₀ l)
    (hslug : isSlug game = true) (hroom : Room dir game) (s : Stamped) :
    ∃ d', outcome (Disk.appendBytes ((dir.child game).child "events.jsonl") s.bytes) d = (.ok (), d') ∧
      Holds dir l d₀ d' (Function.update pages game (pages game ++ [s])) := by
  have hgameAt : DirAt d (dir.child game) (l ++ [game]) :=
    (hdisk.dirAt hbare hdir).child (Path.isProper_of_isSlug hslug) hroom.1
      (by rw [hdisk.inside _ (by simp), hgame])
  have hfile : d.find? (l ++ [game] ++ ["events.jsonl"]) = fileOf (pages game) := by
    rw [List.append_assoc, hdisk.inside _ (by simp)]
    exact hbound.files game
  have hr := hgameAt.resolve_child isProper_events hroom.2 (fun target htarget => by
    rw [hfile] at htarget
    cases hpage : pages game <;> rw [hpage] at htarget <;> cases htarget) .follow
  have hat : l ++ [game] ++ ["events.jsonl"] = l ++ [game, "events.jsonl"] := by simp
  -- Whether or not there is a journal, there is one with one more line afterwards.
  have hadded : outcome (Disk.appendBytes ((dir.child game).child "events.jsonl") s.bytes) d =
      (.ok (), d.set (l ++ [game, "events.jsonl"])
        (.file (textOf (pages game ++ [s])) Disk.newFileMode none)) := by
    have hsingle : textOf [s] = s.bytes := by rw [textOf, textOf, ByteArray.append_empty]
    rw [textOf_append, hsingle, ← hat]
    cases hpage : pages game with
    | nil =>
      rw [hpage] at hfile
      exact Disk.outcome_update_of_none hr hfile rfl _ _
    | cons s' rest =>
      rw [hpage] at hfile
      exact Disk.outcome_update_of_file hr hfile _ _
  exact ⟨_, hadded, _, hdisk.set (by simp) _, hbound.withEvent hgame hroom s⟩

/-- Appending an event adds it to the page of its game when there is room for the journal, and fails
    otherwise; then the pages are as they were. -/
theorem append_step (h : Holds dir l d₀ d pages) (hdir : DirAt d₀ dir l) (hbare : Bare d₀ l)
    (hslug : isSlug game = true) (time : String) (e : Event) :
    (Room dir game ∧ ∃ d', outcome (append time dir game e) d = (.ok (), d') ∧
      Holds dir l d₀ d' (Function.update pages game (pages game ++ [⟨time, e⟩]))) ∨
    ¬ Room dir game ∧ ∃ failure d', outcome (append time dir game e) d = (.error failure, d') ∧
      Holds dir l d₀ d' pages := by
  have hname := Path.isProper_of_isSlug hslug
  rw [append_eq hslug]
  by_cases hfits : Fits dir game
  case neg =>
    obtain ⟨tree, hdisk, hbound⟩ := h
    obtain ⟨e, he⟩ := Disk.outcome_createDirAll_of_unfit (hdisk.dirAt hbare hdir) hname hfits
    refine .inr ⟨fun hroom => hfits hroom.1, .noDirectory (dir.child game) e, d, ?_, tree, hdisk, hbound⟩
    refine Disk.outcome_bind_of_error ?_
    rw [outcome_onFailure, he]
    rfl
  obtain ⟨d₁, tree, hmade, hdisk, hbound, hgame⟩ := makeDir_step h hdir hbare hslug hfits
  rw [Disk.outcome_bind, outcome_onFailure, hmade]
  dsimp only [Except.mapError]
  rw [outcome_onFailure]
  by_cases hfits' : Fits (dir.child game) "events.jsonl"
  · obtain ⟨d₂, hadded, hholds⟩ :=
      addLine_step hdisk hbound hgame hdir hbare hslug ⟨hfits, hfits'⟩ ⟨time, e⟩
    refine .inl ⟨⟨hfits, hfits'⟩, d₂, ?_, hholds⟩
    rw [hadded]
    rfl
  · have hgameAt : DirAt d₁ (dir.child game) (l ++ [game]) :=
      (hdisk.dirAt hbare hdir).child hname hfits (by rw [hdisk.inside _ (by simp), hgame])
    obtain ⟨e, -, -, he⟩ := hgameAt.resolve_unfit isProper_events hfits'
    refine .inr ⟨fun hroom => hfits' hroom.2, .notOpened ((dir.child game).child "events.jsonl") e, d₁, ?_, tree, hdisk, hbound⟩
    rw [Disk.appendBytes, Disk.outcome_update_of_error (he .follow)]
    rfl

/-! ## Names that are no slugs -/

/-- What is no slug is refused, and nothing is written. -/
theorem append_refused (hslug : isSlug game = false) (time : String) (dir : Path) (e : Event)
    (d : Disk) : outcome (append time dir game e) d = (.error (.invalidName game), d) := by
  rw [append, logPath, if_neg (by simp [hslug])]
  rfl

theorem read_refused (hslug : isSlug game = false) (dir : Path) (d : Disk) :
    outcome (read dir game) d = (.error (.invalidName game), d) := by
  rw [read, logPath, if_neg (by simp [hslug])]
  rfl

/-! ## One after the other -/

/-- An event that is to be appended to the journal of a game. -/
structure Entry where
  time : String
  game : String
  event : Event

/-- An entry, and what came of appending it. -/
abbrev Appending := Entry × Except LogError Unit

/-- The events that were appended for a game, with their times. -/
def appended (history : List Appending) (game : String) : List Stamped :=
  (history.filter fun (e, result) => e.game == game && result.isOk).map fun (e, _) =>
    ⟨e.time, e.event⟩

theorem appended_concat (history : List Appending) (e : Entry) (result : Except LogError Unit) :
    appended (history ++ [(e, result)]) =
      if result.isOk then
        Function.update (appended history) e.game (appended history e.game ++ [⟨e.time, e.event⟩])
      else appended history := by
  funext game
  unfold appended
  rw [List.filter_append, List.map_append]
  cases hok : result.isOk with
  | false => simp [hok]
  | true =>
    by_cases hgame : game = e.game
    · subst hgame
      simp [hok]
    · have hne : (e.game == game) = false := by simpa using Ne.symm hgame
      simp [hne, hgame]

theorem mem_of_appended {history : List Appending} {s : Stamped} (h : s ∈ appended history game) :
    ∃ e ∈ history.map Prod.fst, e.event = s.event ∧ e.game = game := by
  obtain ⟨made, hmade, rfl⟩ := List.mem_map.mp h
  obtain ⟨hmem, hgame⟩ := List.mem_filter.mp hmade
  exact ⟨made.1, List.mem_map_of_mem hmem, rfl, by simp_all⟩

/-- What comes of appending: what is no slug is refused, and for a slug it succeeds just if there is
    room for the journal. -/
structure Expected (dir : Path) (made : Appending) : Prop where
  refused : isSlug made.1.game = false → made.2 = .error (.invalidName made.1.game)
  accepted : isSlug made.1.game = true → ((made.2 = .ok () ↔ Room dir made.1.game) ∧
    ∀ name, made.2 ≠ .error (.invalidName name))

/-- After these events were appended, the journal of each game gives back those that were appended
    for it, in order.  Names that are no slugs are refused, and nothing is written for them. -/
structure Lossless (dir : Path) (history : List Appending) (d : Disk) : Prop where
  results : ∀ made ∈ history, Expected dir made
  reads : ∀ game, isSlug game = true → outcome (read dir game) d = (.ok (appended history game), d)
  readRefused : ∀ game, isSlug game = false →
    outcome (read dir game) d = (.error (.invalidName game), d)
  appendRefused : ∀ time game e, isSlug game = false →
    outcome (append time dir game e) d = (.error (.invalidName game), d)

/-- The pages of the journals, and what came of each appending, after events were appended one after
    the other. -/
theorem holds_series (hdir : DirAt d₀ dir l) (hbare : Bare d₀ l) (entries : List Entry) :
    let made := series (fun e => append e.time dir e.game e.event) entries d₀
    Holds dir l d₀ made.2 (appended made.1) ∧ ∀ m ∈ made.1, Expected dir m := by
  refine Disk.series_induction
    (P := fun history d => Holds dir l d₀ d (appended history) ∧ ∀ m ∈ history, Expected dir m)
    ⟨Holds.start hbare, fun m hm => absurd hm List.not_mem_nil⟩
    fun history d e _ ⟨hholds, hresults⟩ => ?_
  have hlast {result : Except LogError Unit} (h : Expected dir (e, result)) :
      ∀ m ∈ history ++ [(e, result)], Expected dir m := by
    intro m hm
    rcases List.mem_append.mp hm with hm | hm
    · exact hresults m hm
    · obtain rfl := List.mem_singleton.mp hm
      exact h
  rw [appended_concat]
  cases hslug : isSlug e.game with
  | false =>
    rw [append_refused hslug]
    exact ⟨hholds, hlast ⟨fun _ => rfl, by simp [hslug]⟩⟩
  | true =>
    have hname := append_ne_invalidName hslug e.time dir e.event d
    rcases append_step hholds hdir hbare hslug e.time e.event with
      ⟨hroom, d', hd', hholds'⟩ | ⟨hnone, failure, d', hd', hholds'⟩
    · rw [hd'] at hname ⊢
      exact ⟨hholds', hlast ⟨by simp [hslug], fun _ => ⟨iff_of_true rfl hroom, hname⟩⟩⟩
    · rw [hd'] at hname ⊢
      exact ⟨hholds', hlast ⟨by simp [hslug], fun _ => ⟨iff_of_false nofun hnone, hname⟩⟩⟩

/-- Journals lose nothing: whatever is appended, what is read for a game is what was appended for
    it, each event with its time, and nothing else. -/
theorem journal_lossless {d₀ : Disk} {dir : Path} {l : Location} (hdir : DirAt d₀ dir l)
    (hempty : ∀ k ≠ [], d₀.find? (l ++ k) = none) (entries : List Entry)
    (hlegible : ∀ e ∈ entries, e.event.Legible) :
    let made := series (fun e => append e.time dir e.game e.event) entries d₀
    made.1.map Prod.fst = entries ∧ Lossless dir made.1 made.2 := by
  intro made
  have hbare := Disk.bare_of_find? hempty
  have hmade : made.1.map Prod.fst = entries := Disk.series_map_fst _ _ _
  obtain ⟨hholds, hresults⟩ := holds_series hdir hbare entries
  exact ⟨hmade, {
    results := hresults
    reads := fun game hslug => read_of_holds hholds hdir hbare hslug fun s hs => by
      obtain ⟨e, he, hevent, -⟩ := mem_of_appended hs
      rw [hmade] at he
      exact hevent ▸ hlegible e he
    readRefused := fun game hslug => read_refused hslug dir _
    appendRefused := fun time game e hslug => append_refused hslug time dir e _ }⟩

/-- Events for two games in turn and for a name that is no slug, with texts over several lines. -/
theorem journal_lossless_lines :
    let d₀ : Disk := ⟨[(["s"], .dir)], [], false⟩
    let second := Decimal.Binary64.seconds 1500000000
    let entries : List Entry :=
      [⟨"1", "a", .stepFailed "a" 3 "echo \"x\"\n\r\n" "\x00\t\\ \u2028\n" true⟩,
        ⟨"2", "b", .stepCompleted "b" 3 "\n" second⟩, ⟨"3", "..", .installAbandoned ".." "r" 0⟩,
        ⟨"4", "a", .installCompleted "a" "\r\n" 18446744073709551615 second⟩]
    let made := series (fun e => append e.time ⟨"/s"⟩ e.game e.event) entries d₀
    (∀ e ∈ entries, e.event.Legible) ∧ made.1.map Prod.fst = entries ∧
      Lossless ⟨"/s"⟩ made.1 made.2 := by
  intro d₀ second entries made
  have hdir : DirAt d₀ ⟨"/s"⟩ ["s"] :=
    Disk.dirAt_root ⟨⟨by decide, by decide⟩, by decide⟩ (by decide) (by decide) rfl
  have hempty : ∀ k ≠ [], d₀.find? (["s"] ++ k) = none := by
    intro k hk
    simp [d₀, Disk.find?, Disk.lookup, Ne.symm hk]
  have hsecond : Json.read? (Json.numberText (.real second)).toList = some (.number (.real second)) := by
    decide +kernel
  have hlegible : ∀ e ∈ entries, e.event.Legible := by
    simp only [entries, List.forall_mem_cons, Event.Legible, Event.fields, List.not_mem_nil,
      false_implies, implies_true, and_true]
    exact ⟨⟨.string _, .nat _ (by decide), .string _, .string _, .bool _⟩,
      ⟨.string _, .nat _ (by decide), .string _, .real _ hsecond⟩,
      ⟨.string _, .string _, .nat _ (by decide)⟩,
      .string _, .string _, .nat _ (by decide), .real _ hsecond⟩
  exact ⟨hlegible, journal_lossless hdir hempty entries hlegible⟩

end GameInstaller.Journal
