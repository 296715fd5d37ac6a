import GameInstaller.Proofs.Disk.Beneath
import GameInstaller.Proofs.Disk.Leading
import GameInstaller.Proofs.Disk.Sharing
import GameInstaller.Proofs.Journal.Lossless
import GameInstaller.Proofs.Library.Table

/-!
# The library in its file

A call on the library succeeds and puts a table in the place of the one that was there, or fails and
leaves it.  Making directories, and appending to journals, leave it also, even where a journal and
the library are one file.

* `at?`, `tableAt`  the rows of the library at a location
* `Holds`           the library that a path heads for has these rows, under all names of its file
* `Revises`         a library was given other rows

## Key results

- `Holds.append`: journals do not disturb the library
- `openAt_cases`, `record_cases`: what becomes of the rows when the library is opened, and when a row
  is recorded
- `openAt_of_library`: a library that is there can be opened
-/

namespace GameInstaller.Library

open Disk (outcome FileAt)

/-- The rows of the library at a location, if there is one. -/
def at? (d : Disk) (l : Location) : Option Rows := rowsIn? (d.bytesAt l)

/-- The rows of the library at a location; none where no library is. -/
def tableAt (d : Disk) (l : Location) : Rows := (at? d l).getD []

/-- A path heads for a location, where the library has these rows, if there is one, and where the
    names of its file agree; and the path leads to a file there, if it is known to. -/
structure Holds (d : Disk) (p : Path) (l : Location) (found : Option Rows) (known : Prop) :
    Prop where
  at?_eq : at? d l = found
  agrees : d.Agrees l
  heads : d.Heads p l
  fileAt : known → FileAt d p l

variable {d d₁ d' : Disk} {l : Location} {p : Path} {found : Option Rows} {known : Prop}

/-! ## What leaves a library as it is -/

theorem Holds.imp {known' : Prop} (h : Holds d p l found known) (himp : known' → known) :
    Holds d p l found known' := { h with fileAt := fun hknown => h.fileAt (himp hknown) }

theorem Holds.spares (h : Holds d p l found known) (hl : d.Spares d' p l) :
    Holds d' p l found known where
  at?_eq := by
    rw [at?, Disk.bytesAt, hl.find?]
    exact h.at?_eq
  agrees := hl.agrees h.agrees
  heads := hl.heads h.heads
  fileAt hknown := hl.fileAt (h.fileAt hknown)

/-- As long as no link is added, it is enough to look at the rows. -/
theorem Holds.addsNoLink {found' : Option Rows} (h : Holds d p l found known)
    (hd : Disk.AddsNoLink d d') (hrows : at? d' l = found') (hagrees : d'.Agrees l) :
    Holds d' p l found' known where
  at?_eq := hrows
  agrees := hagrees
  heads := h.heads.addsNoLink hd
  fileAt hknown := hd.fileAt (h.fileAt hknown)

theorem Holds.addsDirs (h : Holds d p l found known) (hd : Disk.AddsDirs d d') :
    Holds d' p l found known :=
  h.addsNoLink hd.addsNoLink (by rw [at?, (hd.sameFile l).bytes]; exact h.at?_eq)
    (hd.agrees h.agrees)

/-- The line of an event begins with a brace, and ends no field. -/
theorem bytes_toList (s : Journal.Stamped) :
    ∃ r, s.bytes.toList = 0x7B :: r ∧ fieldEnd ∉ s.bytes.toList := by
  have hline : (s.line ++ "\n").toList =
      '\x7b' :: ((Json.compactEntries (("ts", .string s.time) :: s.event.entries)).toList ++
        ['\x7d', '\n']) := by
    rw [String.toList_append, Journal.Stamped.line, Json.object_toList]
    simp
  refine ⟨(((Json.compactEntries (("ts", .string s.time) :: s.event.entries)).toList ++
    ['\x7d', '\n']).flatMap String.utf8EncodeChar), ?_, Text.all_ones_not_mem_toUTF8 (s.line ++ "\n")⟩
  have hbrace : String.utf8EncodeChar '\x7b' = [0x7B] := rfl
  rw [Journal.Stamped.bytes, Text.toUTF8_toList, hline, List.flatMap_cons, hbrace,
    List.singleton_append]

theorem brace_not_mem_header : (0x7B : UInt8) ∉ header := by decide +kernel

/-- An event that is appended to a journal leaves the library as it is, even if its line goes into
    the file of the library. -/
theorem Holds.append (h : Holds d p l found known) (time : String) (dir : Path) (game : String)
    (e : Journal.Event) :
    Holds (outcome (Journal.append time dir game e) d).2 p l found known := by
  cases hslug : isSlug game with
  | false =>
    have hrefused : Journal.logPath dir game = .error (.invalidName game) :=
      if_neg (by simp [hslug])
    unfold Journal.append
    rw [hrefused]
    exact h
  | true =>
    have hdirs := h.addsDirs (Disk.createDirAll_addsDirs (dir.child game) d)
    rw [Journal.append_eq hslug, Disk.outcome_bind, Journal.outcome_onFailure]
    rcases hmade : outcome (Disk.createDirAll (dir.child game)) d with ⟨_ | _, d₁⟩
    · rwa [hmade] at hdirs
    · rw [hmade] at hdirs
      -- The line goes into another file, or behind the rows.
      have hadd := Disk.appendBytes_agrees hdirs.agrees ((dir.child game).child "events.jsonl")
        (Journal.Stamped.mk time e).bytes
      have hlink := Disk.update_addsNoLink ((dir.child game).child "events.jsonl")
        (· ++ (Journal.Stamped.mk time e).bytes) Disk.newFileMode d₁
      rw [← Disk.appendBytes] at hlink
      dsimp only [Except.mapError]
      rw [Journal.outcome_onFailure]
      generalize (outcome (Disk.appendBytes ((dir.child game).child "events.jsonl")
        (Journal.Stamped.mk time e).bytes) d₁) = appended at hadd hlink
      obtain ⟨hbytes, hagrees⟩ := hadd
      refine hdirs.addsNoLink hlink ?_ hagrees
      obtain ⟨r, hr, hend⟩ := bytes_toList ⟨time, e⟩
      rw [← hdirs.at?_eq, at?, at?]
      rcases hbytes with hsame | hmore
      · exact congrArg rowsIn? hsame
      · exact (congrArg rowsIn? hmore).trans (rowsIn?_append hr brace_not_mem_header hend)

/-! ## Reading -/

theorem decode?_of_at? {content : ByteArray} {rows : Rows} (h : rowsIn? content = some rows) :
    decode? content = some rows := by
  unfold rowsIn? at h
  split at h
  · cases h
  · exact h

theorem rowsIn?_getD {content : ByteArray} {rows : Rows} (h : decode? content = some rows) :
    (rowsIn? content).getD [] = rows := by
  unfold rowsIn?
  split
  · rename_i hnil
    rw [decode?, hnil] at h
    cases h
    rfl
  · rw [h]
    rfl

theorem outcome_rows_of_absent (h : d.pathExists p = false) :
    outcome (rows p) d = (.ok [], d) := by
  unfold rows
  rw [Disk.outcome_bind_of_ok (Disk.outcome_get d), h]
  rfl

theorem outcome_rows_of_file {r : Disk.Resolved} {content : ByteArray} {mode : Nat}
    {shared : Option Nat} (hr : d.resolve .follow p = .ok r)
    (hn : r.node = some (.file content mode shared)) :
    outcome (rows p) d = ((decode? content).elim (.error .database) .ok, d) := by
  have hthere : d.pathExists p = true := by simp [Disk.pathExists, Disk.stat, hr, hn]
  unfold rows
  rw [Disk.outcome_bind_of_ok (Disk.outcome_get d), if_pos hthere,
    Disk.outcome_bind_of_ok (Disk.outcome_attempt _ _), Disk.outcome_readBytes_of_file hr hn]
  dsimp only
  cases decode? content <;> rfl

theorem outcome_rows_of_not_file {r : Disk.Resolved} {n : Disk.Node}
    (hr : d.resolve .follow p = .ok r) (hn : r.node = some n) (hfile : n.isFile = false) :
    outcome (rows p) d = (.error .database, d) := by
  have hthere : d.pathExists p = true := by simp [Disk.pathExists, Disk.stat, hr, hn]
  have hread : outcome (Disk.readBytes p) d = (.error (.system .isDirectory), d) := by
    unfold Disk.readBytes Disk.openStream
    rw [Disk.outcome_bind, Disk.outcome_bind, Disk.outcome_find, hr]
    dsimp only
    rw [hn]
    cases n with
    | dir | link target => rfl
    | file content mode shared => cases hfile
  unfold rows
  rw [Disk.outcome_bind_of_ok (Disk.outcome_get d), if_pos hthere,
    Disk.outcome_bind_of_ok (Disk.outcome_attempt _ _), hread]
  rfl

/-- Reading the rows changes nothing, and gives those that are where the path leads. -/
theorem rows_cases (p : Path) (d : Disk) :
    (∃ e, outcome (rows p) d = (.error e, d)) ∨ ∃ read, outcome (rows p) d = (.ok read, d) ∧
      ∀ r, d.resolve .follow p = .ok r → read = tableAt d r.location := by
  cases hr : d.resolve .follow p with
  | error e =>
    exact .inr ⟨_, outcome_rows_of_absent (by simp [Disk.pathExists, Disk.stat, hr]), nofun⟩
  | ok r =>
    cases hn : r.node with
    | none =>
      refine .inr ⟨_, outcome_rows_of_absent (by simp [Disk.pathExists, Disk.stat, hr, hn]), ?_⟩
      rintro _ ⟨⟩
      obtain ⟨-, -, hfind⟩ := Disk.resolve_entry d _ hr (by simp [hn])
      rw [tableAt, at?, Disk.bytesAt, hfind, hn]
      exact (rowsIn?_getD (by decide +kernel)).symm
    | some n =>
      cases n with
      | dir | link target => exact .inl ⟨_, outcome_rows_of_not_file hr hn rfl⟩
      | file content mode shared =>
        rw [outcome_rows_of_file hr hn]
        cases hrows : decode? content with
        | none => exact .inl ⟨_, rfl⟩
        | some read =>
          refine .inr ⟨read, rfl, ?_⟩
          rintro _ ⟨⟩
          obtain ⟨-, -, hfind⟩ := Disk.resolve_entry d _ hr (by simp [hn])
          rw [tableAt, at?, Disk.bytesAt, hfind, hn]
          exact (rowsIn?_getD hrows).symm

/-! ## Writing -/

/-- A path leads to the location of a library, where `rows` were put in the place of those that were
    there. -/
structure Revises (change : Rows → Rows) (d d' : Disk) (p : Path) (l : Location) : Prop where
  leads : ∃ r, d.resolve .follow p = .ok r ∧ r.location = l
  fileAt : FileAt d' p l
  at?_eq : at? d' l = some (change (tableAt d l))
  agrees : d.Agrees l → d'.Agrees l
  addsNoLink : d.AddsNoLink d'

/-- A library that is revised is the one that the path heads for. -/
theorem Revises.holds {change : Rows → Rows} {k : Location} (h : Revises change d d' p k)
    (hd : Holds d p l found known) : Holds d' p l (some (change (found.getD []))) True := by
  obtain ⟨r, hr, rfl⟩ := h.leads
  obtain rfl := hd.heads.leadsTo r hr
  have htable : tableAt d r.location = found.getD [] := by rw [tableAt, hd.at?_eq]
  exact ⟨h.at?_eq.trans (by rw [htable]), h.agrees hd.agrees, hd.heads.addsNoLink h.addsNoLink,
    fun _ => h.fileAt⟩

/-- A file that was written is there, with its content. -/
theorem writeBytes_cases (p : Path) (content : ByteArray) (d : Disk) :
    (∃ e, outcome (Disk.writeBytes p content) d = (.error e, d)) ∨
      ∃ d' r, outcome (Disk.writeBytes p content) d = (.ok (), d') ∧
        d.resolve .follow p = .ok r ∧ FileAt d' p r.location ∧ d'.bytesAt r.location = content := by
  unfold Disk.writeBytes
  cases hr : d.resolve .follow p with
  | error e => exact .inl ⟨e, Disk.outcome_update_of_error hr _ _⟩
  | ok r =>
    cases hn : r.node with
    | none =>
      obtain ⟨-, hl, hfind⟩ := Disk.resolve_entry d _ hr (by simp [hn])
      cases hslash : r.slash with
      | true =>
        refine .inl ⟨.system .isDirectory, ?_⟩
        unfold Disk.update
        rw [Disk.outcome_bind, Disk.outcome_find, hr]
        dsimp only
        rw [hn, hslash]
        rfl
      | false =>
        refine .inr ⟨_, r, Disk.outcome_update_of_none hr hn hslash _ _, rfl, ?_, ?_⟩
        · exact ⟨_, _, _, _, Disk.resolve_set hr hn hslash _ _ _, rfl, rfl⟩
        · rw [Disk.bytesAt, Disk.find?_set, if_neg hl, if_pos rfl]
    | some n =>
      cases n with
      | dir | link target =>
        refine .inl ⟨.system .isDirectory, ?_⟩
        unfold Disk.update
        rw [Disk.outcome_bind, Disk.outcome_find, hr]
        dsimp only
        rw [hn]
        rfl
      | file old mode shared =>
        obtain ⟨-, hl, hfind⟩ := Disk.resolve_entry d _ hr (by simp [hn])
        have hfile := hfind.trans hn
        refine .inr ⟨_, r, Disk.outcome_update_of_file hr hn _ _, rfl, ?_, ?_⟩
        · exact (Disk.Extends.of_outline (Disk.outline_setContent d hl hfile _ _)).fileAt
            ⟨r, _, _, _, hr, rfl, hn⟩
        · rw [Disk.bytesAt, Disk.find?_setContent_self hl hfile]

/-- Rows are stored where the path leads, or the disk is left as it was. -/
theorem store_cases (p : Path) (rows : Rows) (d : Disk) :
    (∃ e, outcome (store p rows) d = (.error e, d)) ∨
      ∃ d' r, outcome (store p rows) d = (.ok (), d') ∧ d.resolve .follow p = .ok r ∧
        FileAt d' p r.location ∧ at? d' r.location = some rows ∧
          (∀ l, d.Agrees l → d'.Agrees l) ∧ d.AddsNoLink d' := by
  have hagrees {l : Location} (hl : d.Agrees l) :
      (outcome (Disk.writeBytes p (encode rows)) d).2.Agrees l :=
    (Disk.update_agrees hl p (fun _ => encode rows) Disk.newFileMode).2
  have hlink : d.AddsNoLink (outcome (Disk.writeBytes p (encode rows)) d).2 :=
    Disk.update_addsNoLink p (fun _ => encode rows) Disk.newFileMode d
  unfold store
  rw [Disk.outcome_bind_of_ok (Disk.outcome_attempt _ _)]
  rcases writeBytes_cases p (encode rows) d with ⟨e, he⟩ | ⟨d', r, hwrite, hr, hfile, hbytes⟩
  · rw [he]
    exact .inl ⟨_, rfl⟩
  · rw [hwrite] at hagrees hlink ⊢
    refine .inr ⟨d', r, rfl, hr, hfile, ?_, fun l hl => hagrees hl, hlink⟩
    rw [at?, hbytes, rowsIn?_encode]

/-- Rows that are read, changed and stored. -/
theorem revise_cases (change : Rows → Rows) (p : Path) (d : Disk) :
    (∃ e, outcome (do store p (change (← rows p))) d = (.error e, d)) ∨
      ∃ d' l, outcome (do store p (change (← rows p))) d = (.ok (), d') ∧
        Revises change d d' p l := by
  rcases rows_cases p d with ⟨e, he⟩ | ⟨read, hread, htable⟩
  · exact .inl ⟨e, Disk.outcome_bind_of_error he⟩
  rw [Disk.outcome_bind_of_ok hread]
  rcases store_cases p (change read) d with he |
    ⟨d', r, hstore, hr, hfile, hrows, hagrees, hlink⟩
  · exact .inl he
  · exact .inr ⟨d', r.location, hstore, ⟨r, hr, rfl⟩, hfile, by rw [hrows, htable r hr],
      hagrees r.location, hlink⟩

/-- Recording a row puts it into the table where the path leads, or leaves the disk as it was. -/
theorem record_cases (p : Path) (e : LibraryEntry) (d : Disk) :
    (∃ error, outcome (record p e) d = (.error error, d)) ∨
      ∃ d' l, outcome (record p e) d = (.ok (), d') ∧ Revises (Rows.record e) d d' p l :=
  revise_cases _ _ _

/-- Opening a library makes directories, and then keeps the rows, or fails. -/
theorem openAt_cases (p : Path) (d : Disk) : ∃ d₁, Disk.AddsDirs d d₁ ∧
    ((∃ e, outcome (openAt p) d = (.error e, d₁)) ∨
      ∃ d' l, outcome (openAt p) d = (.ok (), d') ∧ Revises id d₁ d' p l) := by
  unfold openAt
  cases p.parent? with
  | none => exact ⟨d, .refl, revise_cases id p d⟩
  | some parent =>
    dsimp only
    have hdirs := Disk.createDirAll_addsDirs parent d
    rw [Disk.outcome_bind_of_ok (Disk.outcome_attempt _ _)]
    rcases hmade : outcome (Disk.createDirAll parent) d with ⟨made | _, d₁⟩
    · rw [hmade] at hdirs
      exact ⟨d₁, hdirs, .inl ⟨_, rfl⟩⟩
    · rw [hmade] at hdirs
      exact ⟨d₁, hdirs, revise_cases id p d₁⟩

/-! ## A library that is there -/

/-- The rows of a library that is there are read. -/
theorem outcome_rows_of_library {rows : Rows} (hfile : FileAt d p l) (hrows : at? d l = some rows) :
    outcome (Library.rows p) d = (.ok rows, d) := by
  obtain ⟨r, content, mode, shared, hr, rfl, hn⟩ := hfile
  obtain ⟨-, -, hfind⟩ := Disk.resolve_entry d _ hr (by simp [hn])
  rw [at?, Disk.bytesAt, hfind, hn] at hrows
  rw [outcome_rows_of_file hr hn, decode?_of_at? hrows]
  rfl

/-- A library that is there is opened, and its rows are listed. -/
theorem openAt_of_library {rows : Rows} (hfile : FileAt d p l) (hrows : at? d l = some rows) :
    ∃ d', outcome (openAt p) d = (.ok (), d') ∧ FileAt d' p l ∧ at? d' l = some rows := by
  obtain ⟨r, content, mode, shared, hr, rfl, hn⟩ := id hfile
  have hparent : outcome (openAt p) d = outcome (store p rows) d := by
    unfold openAt
    have hread := outcome_rows_of_library hfile hrows
    cases hp : p.parent? with
    | none => exact Disk.outcome_bind_of_ok hread
    | some parent =>
      dsimp only
      rw [Disk.outcome_bind_of_ok (Disk.outcome_attempt _ _),
        Disk.outcome_createDirAll_parent hp hr]
      exact Disk.outcome_bind_of_ok hread
  rw [hparent]
  rcases store_cases p rows d with ⟨e, he⟩ | ⟨d', r', hstore, hr', hfile', hrows', -, -⟩
  · -- A file that is there can be written.
    have hwrite := Disk.outcome_update_of_file hr hn (fun _ => encode rows) Disk.newFileMode
    unfold store at he
    rw [Disk.outcome_bind_of_ok (Disk.outcome_attempt _ _), Disk.writeBytes, hwrite] at he
    cases he
  · obtain rfl := Except.ok.inj (hr.symm.trans hr')
    exact ⟨d', hstore, hfile', hrows'⟩

end GameInstaller.Library
