import GameInstaller.Proofs.Disk.Beneath
import GameInstaller.Proofs.Journal.Appending

/-!
# Defects of journals

Reading a journal passes over the lines that are blank and decodes all others.  When each of these
holds an event, the events are the result, in their order.  Otherwise the first one that does not is
reported by a number, which counts the lines that are not blank: it falls short of the place of the
line in the file by the number of blank lines before it.

* `isBlankLine`   a line that is passed over
* `Defect`        the first line that should hold an event and does not

## Key results

- `eventsOfText_eq_ok_iff`, `eventsOfText_eq_error_iff`: what the text of a journal gives
- `read_eq_eventsOfText`: reading a journal that can be read is decoding its text
- `read_reports_defects`: what is read from a journal, and what is reported
-/

namespace GameInstaller.Journal

open Disk (outcome)

/-- Whether a line is passed over. -/
def isBlankLine (l : List Char) : Bool := l.all Text.isBlank

/-- Of `lines`, `line` is the first that is not blank and holds no event; the lines `before` stand
    before it. -/
structure Defect (lines before : List (List Char)) (line : List Char) : Prop where
  isPrefix : before ++ [line] <+: lines
  sound : ∀ l ∈ before, isBlankLine l = false → (Stamped.ofLine? l).isSome = true
  notBlank : isBlankLine line = false
  undecoded : Stamped.ofLine? line = none

section Defect

variable {lines before before' : List (List Char)} {line line' : List Char}

/-- Of two first lines that hold no event neither stands before the other. -/
theorem Defect.length_le (h : Defect lines before line) (h' : Defect lines before' line') :
    before'.length ≤ before.length := by
  by_contra hlt
  have hfront : before ++ [line] <+: before' :=
    List.prefix_of_prefix_length_le h.isPrefix ((List.prefix_append _ [line']).trans h'.isPrefix)
      (by rw [List.length_append, List.length_singleton]; omega)
  have hsome := h'.sound line (hfront.subset (by simp)) h.notBlank
  rw [h.undecoded] at hsome
  cases hsome

/-- There is one first line that holds no event. -/
theorem Defect.unique (h : Defect lines before line) (h' : Defect lines before' line') :
    before = before' ∧ line = line' := by
  have hlen : before.length = before'.length := Nat.le_antisymm (h'.length_le h) (h.length_le h')
  have heq : before ++ [line] = before' ++ [line'] := by
    refine (List.prefix_of_prefix_length_le h.isPrefix h'.isPrefix ?_).eq_of_length ?_ <;>
      simp [hlen]
  obtain ⟨hbefore, hline⟩ := List.append_inj' heq rfl
  exact ⟨hbefore, List.singleton_inj.mp hline⟩

end Defect

/-! ## Lines -/

section Lines

variable {p : Path} {n : Nat} {ls : List (List Char)}

/-- Lines give their events when each of them holds one. -/
theorem eventsOf_eq_ok_iff {events : List Stamped} :
    eventsOf p n ls = .ok events ↔ ls.map Stamped.ofLine? = events.map some := by
  induction ls generalizing n events with
  | nil => cases events <;> simp [eventsOf]
  | cons l rest ih =>
    unfold eventsOf
    cases hl : Stamped.ofLine? l with
    | none => cases events <;> simp [hl]
    | some e =>
      simp only [map_eq_ok_iff, ih, List.map_cons, hl]
      constructor
      · rintro ⟨later, hlater, rfl⟩
        rw [hlater, List.map_cons]
      · intro h
        cases events with
        | nil => cases h
        | cons e' later =>
          obtain ⟨he, hlater⟩ := List.cons.inj h
          exact ⟨later, hlater, by rw [Option.some.inj he]⟩

/-- Otherwise the first line that holds no event is reported. -/
theorem eventsOf_eq_error_iff {e : LogError} :
    eventsOf p n ls = .error e ↔ ∃ before line after, ls = before ++ line :: after ∧
      (∀ l ∈ before, (Stamped.ofLine? l).isSome = true) ∧ Stamped.ofLine? line = none ∧
      e = .badEvent p (n + before.length) := by
  induction ls generalizing n with
  | nil => simp [eventsOf]
  | cons l rest ih =>
    unfold eventsOf
    cases hl : Stamped.ofLine? l with
    | none =>
      constructor
      · rintro ⟨⟩
        exact ⟨[], l, rest, rfl, by simp, hl, rfl⟩
      · rintro ⟨before, line, after, hsplit, hbefore, -, rfl⟩
        -- No line can stand before the first one.
        cases before with
        | nil => rfl
        | cons l' before =>
          obtain ⟨rfl, -⟩ := List.cons.inj hsplit
          have hsome := hbefore l List.mem_cons_self
          rw [hl] at hsome
          cases hsome
    | some s =>
      simp only [map_eq_error_iff, ih]
      constructor
      · rintro ⟨before, line, after, rfl, hbefore, hline, rfl⟩
        refine ⟨l :: before, line, after, rfl, ?_, hline, ?_⟩
        · exact List.forall_mem_cons.mpr ⟨by rw [hl]; rfl, hbefore⟩
        · rw [List.length_cons, Nat.add_assoc, Nat.add_comm 1]
      · rintro ⟨before, line, after, hsplit, hbefore, hline, rfl⟩
        cases before with
        | nil =>
          obtain ⟨rfl, -⟩ := List.cons.inj hsplit
          rw [hl] at hline
          cases hline
        | cons l' before =>
          obtain ⟨rfl, rfl⟩ := List.cons.inj hsplit
          refine ⟨before, line, after, rfl, fun k hk => hbefore k (List.mem_cons_of_mem _ hk),
            hline, ?_⟩
          rw [List.length_cons, Nat.add_assoc, Nat.add_comm 1]

end Lines

/-! ## Texts -/

section Texts

variable {p : Path} {content : String}

/-- The lines of a text that are not passed over. -/
def toldLines (content : String) : List (List Char) :=
  (Text.lines content.toList).filter fun l => !isBlankLine l

theorem eventsOfText_eq (p : Path) (content : String) :
    eventsOfText p content = eventsOf p 1 (toldLines content) := rfl

theorem eventsOfText_eq_ok_iff {events : List Stamped} :
    eventsOfText p content = .ok events ↔
      (toldLines content).map Stamped.ofLine? = events.map some := by
  rw [eventsOfText_eq, eventsOf_eq_ok_iff]

/-- A text gives events when each of its lines is blank or holds one. -/
theorem exists_eventsOfText_iff :
    (∃ events, eventsOfText p content = .ok events) ↔
      ∀ l ∈ Text.lines content.toList, isBlankLine l = false →
        (Stamped.ofLine? l).isSome = true := by
  have htold (l : List Char) : l ∈ toldLines content ↔
      l ∈ Text.lines content.toList ∧ isBlankLine l = false := by simp [toldLines]
  constructor
  · rintro ⟨events, hevents⟩ l hl hblank
    have hmem : Stamped.ofLine? l ∈ (toldLines content).map Stamped.ofLine? :=
      List.mem_map_of_mem ((htold l).mpr ⟨hl, hblank⟩)
    rw [eventsOfText_eq_ok_iff.mp hevents] at hmem
    obtain ⟨e, -, he⟩ := List.mem_map.mp hmem
    rw [← he]
    rfl
  · intro hall
    -- The only way to fail is at a line that holds no event.
    cases hr : eventsOfText p content with
    | ok events => exact ⟨events, rfl⟩
    | error e =>
      rw [eventsOfText_eq, eventsOf_eq_error_iff] at hr
      obtain ⟨before, line, after, hsplit, -, hline, -⟩ := hr
      obtain ⟨hmem, hblank⟩ := (htold line).mp (by simp [hsplit])
      have hsome := hall line hmem hblank
      rw [hline] at hsome
      cases hsome

/-- The number of a line among those that are not passed over falls short of its place by the blank
    lines before it. -/
theorem eventsOfText_eq_error_iff {e : LogError} :
    eventsOfText p content = .error e ↔ ∃ before line number,
      Defect (Text.lines content.toList) before line ∧
        number + before.countP isBlankLine = before.length + 1 ∧ e = .badEvent p number := by
  have hcount (before : List (List Char)) :
      (before.filter fun l => !isBlankLine l).length + before.countP isBlankLine =
        before.length := by
    have hsum := List.length_eq_countP_add_countP isBlankLine (l := before)
    simp only [List.countP_eq_length_filter] at hsum ⊢
    simpa [Nat.add_comm] using hsum.symm
  rw [eventsOfText_eq, eventsOf_eq_error_iff]
  constructor
  · rintro ⟨told, line, after, hsplit, hsound, hline, rfl⟩
    -- The lines that are told before it are those of a front of the text, which blank lines follow.
    obtain ⟨front, back, hlines, rfl, hback⟩ := List.filter_eq_append_iff.mp hsplit
    obtain ⟨blanks, rest, rfl, hblanks, hnot, -⟩ := List.filter_eq_cons_iff.mp hback
    have hnone : (blanks.filter fun l => !isBlankLine l) = [] := List.filter_eq_nil_iff.mpr hblanks
    refine ⟨front ++ blanks, line, _, ⟨⟨rest, by simp [hlines]⟩, ?_, by simpa using hnot, hline⟩,
      ?_, rfl⟩
    · intro l hl hblank
      rcases List.mem_append.mp hl with hl | hl
      · exact hsound l (List.mem_filter.mpr ⟨hl, by simp [hblank]⟩)
      · exact absurd (by simp [hblank]) (hblanks l hl)
    · have htotal := hcount (front ++ blanks)
      rw [List.filter_append, hnone, List.append_nil] at htotal
      omega
  · rintro ⟨before, line, number, hd, hnumber, rfl⟩
    obtain ⟨rest, hlines⟩ := hd.isPrefix
    refine ⟨before.filter fun l => !isBlankLine l, line,
      rest.filter fun l => !isBlankLine l, ?_, ?_, hd.undecoded, ?_⟩
    · rw [toldLines, ← hlines]
      simp [hd.notBlank]
    · intro l hl
      obtain ⟨hl, hblank⟩ := List.mem_filter.mp hl
      exact hd.sound l hl (by simpa using hblank)
    · have htotal := hcount before
      congr 1
      omega

end Texts

/-! ## Files -/

/-- A file that can be read as text is there. -/
theorem pathExists_of_readText {p : Path} {d : Disk} {content : String}
    (h : (outcome (Disk.readText p) d).1 = .ok content) : d.pathExists p = true := by
  have hread : outcome (Disk.readText p) d = (.ok content, (outcome (Disk.readText p) d).2) :=
    Prod.ext h rfl
  obtain ⟨bytes, d₁, hbytes, -⟩ := Disk.outcome_bind_eq_ok.mp hread
  obtain ⟨stream, d₂, hopen, -⟩ := Disk.outcome_bind_eq_ok.mp hbytes
  unfold Disk.openStream at hopen
  rw [Disk.outcome_bind, Disk.outcome_find] at hopen
  cases hr : d.resolve .follow p with
  | error e =>
    rw [hr] at hopen
    cases hopen
  | ok r =>
    cases hn : r.node with
    | none =>
      simp only [hr, hn] at hopen
      cases hopen
    | some n => simp [Disk.pathExists, Disk.stat, hr, hn]

/-- Reading a journal that can be read is decoding its text. -/
theorem read_eq_eventsOfText {dir : Path} {game content : String} {d : Disk}
    (hslug : isSlug game = true)
    (hcontent : (outcome (Disk.readText ((dir.child game).child "events.jsonl")) d).1 =
      .ok content) :
    outcome (read dir game) d =
      (eventsOfText ((dir.child game).child "events.jsonl") content, d) := by
  have hread : outcome (Disk.readText ((dir.child game).child "events.jsonl")) d =
      (.ok content, d) := Prod.ext hcontent (Disk.readText_quiet _ d)
  rw [read, logPath_eq_ok.mpr ⟨hslug, rfl⟩]
  dsimp only
  rw [Disk.outcome_bind_of_ok (Disk.outcome_get d), pathExists_of_readText hcontent,
    if_neg (by simp), Disk.outcome_bind, outcome_onFailure, hread]
  dsimp only [Except.mapError]
  cases eventsOfText ((dir.child game).child "events.jsonl") content <;> rfl

/-- A journal that can be read gives the events of its lines, in the order of the file, when each of
    them is blank or holds one.  Otherwise the first line that is not blank and holds no event is
    reported, by its number among the lines that are not blank.  This is its place in the file if no
    blank line stands before it, and only then. -/
theorem read_reports_defects {dir : Path} {game content : String} {d : Disk}
    (hslug : isSlug game = true)
    (hcontent : (outcome (Disk.readText ((dir.child game).child "events.jsonl")) d).1 =
      .ok content) :
    let path := (dir.child game).child "events.jsonl"
    let lines := Text.lines content.toList
    let out := outcome (read dir game) d
    out.2 = d ∧
    ((∃ events, out.1 = .ok events) ↔
      ∀ l ∈ lines, isBlankLine l = false → (Stamped.ofLine? l).isSome = true) ∧
    (∀ events, out.1 = .ok events ↔
      (lines.filter fun l => !isBlankLine l).map Stamped.ofLine? = events.map some) ∧
    (∀ e, out.1 = .error e ↔ ∃ before line number, Defect lines before line ∧
      number + before.countP isBlankLine = before.length + 1 ∧ e = .badEvent path number) ∧
    (∀ before line number, Defect lines before line → out.1 = .error (.badEvent path number) →
      (number = before.length + 1 ↔ ∀ l ∈ before, isBlankLine l = false)) ∧
    ∀ number, (LogError.badEvent path number).message =
      path.text ++ ":" ++ toString number ++ ": bad event" := by
  intro path lines out
  have hout : out = (eventsOfText path content, d) := read_eq_eventsOfText hslug hcontent
  rw [hout]
  refine ⟨rfl, exists_eventsOfText_iff, fun events => eventsOfText_eq_ok_iff,
    fun e => eventsOfText_eq_error_iff, ?_, fun number => ?_⟩
  · intro before line number hd he
    obtain ⟨before', line', number', hd', hnumber, heq⟩ := eventsOfText_eq_error_iff.mp he
    obtain ⟨rfl, rfl⟩ := hd.unique hd'
    obtain ⟨-, rfl⟩ := LogError.badEvent.inj heq
    have hnone : before.countP isBlankLine = 0 ↔ ∀ l ∈ before, isBlankLine l = false := by
      simp [List.countP_eq_zero]
    rw [← hnone]
    omega
  · change path.text ++ (":" ++ toString number ++ ": bad event") = _
    rw [← String.append_assoc, ← String.append_assoc]

/-- A disk with one journal, which holds this text. -/
def diskOf (text : String) : Disk :=
  ⟨[(["s"], .dir), (["s", "baz"], .dir),
    (["s", "baz", "events.jsonl"], .file text.toUTF8 Disk.newFileMode none)], [], false⟩

theorem outcome_readText_diskOf (text : String) :
    outcome (Disk.readText (((Path.mk "/s").child "baz").child "events.jsonl")) (diskOf text) =
      (.ok text, diskOf text) := by
  have hpath : ((Path.mk "/s").child "baz").child "events.jsonl" = ⟨"/s/baz/events.jsonl"⟩ := by
    decide +kernel
  have hresolve : (diskOf text).resolve .follow ⟨"/s/baz/events.jsonl"⟩ =
      .ok ⟨["s", "baz", "events.jsonl"], some (.file text.toUTF8 Disk.newFileMode none), false,
        false⟩ := by
    rw [Disk.resolve_absolute _ _ ["s", "baz", "events.jsonl"] (by decide)]
    simp (disch := decide) [Disk.walk_cons, Disk.walkAt, diskOf, Disk.find?, Disk.lookup]
    rfl
  rw [hpath]
  exact Disk.outcome_readText_of_file hresolve rfl

/-- Of the three lines of a journal the second is blank, and the third holds no event: it is reported
    as the second. -/
theorem read_reports_defects_third :
    let e : Stamped := ⟨"t", .installAbandoned "baz" "i-1" 0⟩
    let content := e.line ++ "\n\r\n\x7b\x7d"
    let path := ((Path.mk "/s").child "baz").child "events.jsonl"
    (isSlug "baz" = true ∧ (outcome (Disk.readText path) (diskOf content)).1 = .ok content) ∧
      (outcome (read ⟨"/s"⟩ "baz") (diskOf content)).1 = .error (.badEvent path 2) := by
  intro e content path
  have hslug : isSlug "baz" = true := by decide
  have hcontent := congrArg Prod.fst (outcome_readText_diskOf content)
  obtain ⟨-, -, -, herror, -⟩ := read_reports_defects hslug hcontent
  have hlines : Text.lines content.toList = [e.line.toList, [], "\x7b\x7d".toList] := by
    decide +kernel
  refine ⟨⟨hslug, hcontent⟩, (herror _).mpr ⟨[e.line.toList, []], "\x7b\x7d".toList, 2, ?_, ?_, rfl⟩⟩
  · rw [hlines]
    exact ⟨⟨[], rfl⟩, by decide +kernel, by decide, by decide +kernel⟩
  · decide +kernel

/-- A defect is reported by another number than that of its line, when a blank line stands before
    it. -/
theorem exists_defect_misnumbered :
    ∃ (d : Disk) (dir : Path) (game content : String) (before : List (List Char))
      (line : List Char),
      let path := (dir.child game).child "events.jsonl"
      isSlug game = true ∧ (outcome (Disk.readText path) d).1 = .ok content ∧
        Defect (Text.lines content.toList) before line ∧
        (outcome (read dir game) d).1 ≠ .error (.badEvent path (before.length + 1)) := by
  have hslug : isSlug "baz" = true := by decide
  have hcontent := congrArg Prod.fst (outcome_readText_diskOf "\n\x7b\x7d")
  have hlines : Text.lines "\n\x7b\x7d".toList = [[], "\x7b\x7d".toList] := by decide +kernel
  have hd : Defect (Text.lines "\n\x7b\x7d".toList) [[]] "\x7b\x7d".toList := by
    rw [hlines]
    exact ⟨⟨[], rfl⟩, by decide, by decide, by decide +kernel⟩
  refine ⟨diskOf "\n\x7b\x7d", ⟨"/s"⟩, "baz", _, [[]], _, hslug, hcontent, hd, ?_⟩
  rw [read_eq_eventsOfText hslug hcontent]
  intro he
  obtain ⟨before, line, number, hd', hnumber, heq⟩ := eventsOfText_eq_error_iff.mp he
  obtain ⟨rfl, rfl⟩ := hd.unique hd'
  obtain ⟨-, rfl⟩ := LogError.badEvent.inj heq
  exact absurd hnumber (by decide)

end GameInstaller.Journal
