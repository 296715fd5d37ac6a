import GameInstaller.Command.Bind
import GameInstaller.Proofs.Command.Records
import GameInstaller.Proofs.Digest.Written
import GameInstaller.Proofs.Text

/-!
# The declared shapes of parameters

Each command declares which parameters it takes and which operation they stand for.  Binding
accepts these parameters and no others, and gives that operation.

* `Declares`   the parameters that a command declares, with the operation they stand for

## Key results

- `bind_iff_declares`: parameters without tags are bound just when they have the declared shape
-/

namespace GameInstaller

open Yaml (Value)
open Params

namespace Command

/-- A record of a source and a destination that are not blank. -/
def IsTransfer (v : Value) (t : Transfer) : Prop :=
  ∃ fields, IsRecord ["src", "dst"] fields v ∧
    ("src", .string t.src) ∈ fields ∧ ("dst", .string t.dst) ∈ fields ∧
      Text.trim t.src ≠ "" ∧ Text.trim t.dst ≠ ""

/-- The arguments among fields: none if the field is absent, or else a list of texts. -/
def HasArguments (fields : List (String × Value)) (args : List String) : Prop :=
  (∀ v, ("args", v) ∉ fields) ∧ args = [] ∨ ("args", .sequence (args.map .string)) ∈ fields

/-- The parameters that a command declares, with the operation they stand for. -/
inductive Declares : Command → Value → Operation → Prop where
  | move {v : Value} {t : Transfer} (h : IsTransfer v t) : Declares .move v (.move t)
  | copy {v : Value} {t : Transfer} (h : IsTransfer v t) : Declares .copy v (.copy t)
  | mkdir (path : String) : Declares .mkdir (.string path) (.mkdir path)
  | extract {v : Value} {fields : List (String × Value)} {file : String} {dst : Option String}
      {format : Option Archive.Format} (h : IsRecord ["file", "dst", "format"] fields v)
      (hfile : ("file", .string file) ∈ fields) (hdst : Optionally Eq fields "dst" dst)
      (hformat : Optionally Archive.Format.Spells fields "format" format) :
      Declares .extract v (.extract file dst format)
  | program (file : String) : Declares .execute (.string file) (.execute file [])
  | programWithArguments {v : Value} {fields : List (String × Value)} {file : String}
      {args : List String} (h : IsRecord ["file", "args"] fields v)
      (hfile : ("file", .string file) ∈ fields) (hargs : HasArguments fields args) :
      Declares .execute v (.execute file args)
  | checksum {v : Value} {fields : List (String × Value)} {file hash : String}
      {expected : Digest.Expected} (h : IsRecord ["file", "hash"] fields v)
      (hfile : ("file", .string file) ∈ fields) (hhash : ("hash", .string hash) ∈ fields)
      (hdigest : Digest.Writes (Text.trim hash) expected) :
      Declares .checksum v (.checksum file expected)
  | nothing : Declares .checkDepends .null .checkDepends
  | noEntries : Declares .checkDepends (.mapping []) .checkDepends
  | entry (file : String) : Declares .writeConfig (.string file) (.writeConfig file)
  | entryRecord {v : Value} {fields : List (String × Value)} {file : String}
      (h : IsRecord ["file"] fields v) (hfile : ("file", .string file) ∈ fields) :
      Declares .writeConfig v (.writeConfig file)

theorem Declares.command {c : Command} {v : Value} {o : Operation} (h : Declares c v o) :
    o.command = c := by
  cases h <;> rfl

section Untagged

variable {v : Value}

/-- Two fields that must both be there, and are both texts. -/
theorem readTexts_eq_ok_iff (hv : holdsTag v = false) {record a b s t : String}
    {fields : List (String × Value)} :
    (readRecord record [a, b] (fun _ w => checkText w) v = .ok fields ∧
      textField fields a = .ok s ∧ textField fields b = .ok t) ↔
        IsRecord [a, b] fields v ∧ (a, .string s) ∈ fields ∧ (b, .string t) ∈ fields := by
  rw [← and_assoc, readRecord_textField_eq_ok_iff hv]
  constructor
  · rintro ⟨⟨hrecord, -, hs⟩, ht⟩
    exact ⟨hrecord, hs, (textField_eq_ok_iff hrecord.nodup (hrecord.untagged hv)).mp ht⟩
  · rintro ⟨hrecord, hs, ht⟩
    refine ⟨⟨hrecord, fun f hf => ?_, hs⟩,
      (textField_eq_ok_iff hrecord.nodup (hrecord.untagged hv)).mpr ht⟩
    -- There are no fields but these two.
    obtain ⟨name, w⟩ := f
    rw [checkText_eq_ok_iff (hrecord.untagged hv _ hf)]
    have hname : name = a ∨ name = b := by simpa using hrecord.known _ hf
    rcases hname with rfl | rfl
    · exact ⟨s, hrecord.unique hf hs⟩
    · exact ⟨t, hrecord.unique hf ht⟩

theorem readTransfer_eq_ok_iff (hv : holdsTag v = false) {t : Transfer} :
    readTransfer v = .ok t ↔ IsTransfer v t := by
  simp only [readTransfer, bind_eq_ok_iff, mapError_eq_ok]
  constructor
  · rintro ⟨fields, hfields, src, hsrc, dst, hdst, h⟩
    obtain ⟨hrecord, hsrc, hdst⟩ := (readTexts_eq_ok_iff hv).mp ⟨hfields, hsrc, hdst⟩
    split at h
    · cases h
    rename_i hblank
    split at h
    · cases h
    rename_i hblank'
    cases h
    rw [Text.allBlank_iff] at hblank hblank'
    exact ⟨fields, hrecord, hsrc, hdst, hblank, hblank'⟩
  · rintro ⟨fields, hrecord, hsrc, hdst, hblank, hblank'⟩
    obtain ⟨hfields, hsrc, hdst⟩ := (readTexts_eq_ok_iff hv).mpr ⟨hrecord, hsrc, hdst⟩
    rw [Ne, ← Text.allBlank_iff] at hblank hblank'
    exact ⟨fields, hfields, t.src, hsrc, t.dst, hdst, by rw [if_neg hblank, if_neg hblank']⟩

theorem readChecksum_eq_ok_iff (hv : holdsTag v = false) {o : Operation} :
    readChecksum v = .ok o ↔ Declares .checksum v o := by
  simp only [readChecksum, bind_eq_ok_iff, mapError_eq_ok, Digest.Expected.parse_eq_ok_iff]
  constructor
  · rintro ⟨fields, hfields, file, hfile, hash, hhash, expected, hdigest, h⟩
    obtain ⟨hrecord, hfile, hhash⟩ := (readTexts_eq_ok_iff hv).mp ⟨hfields, hfile, hhash⟩
    cases h
    exact .checksum hrecord hfile hhash hdigest
  · intro h
    cases h with
    | @checksum v fields file hash expected hrecord hfile hhash hdigest =>
      obtain ⟨hfields, hfile, hhash⟩ := (readTexts_eq_ok_iff hv).mpr ⟨hrecord, hfile, hhash⟩
      exact ⟨fields, hfields, file, hfile, hash, hhash, expected, hdigest, rfl⟩

/-- The check of a field of an archive. -/
def checkExtractField (name : String) (w : Value) : Except ShapeError Unit :=
  if name = "file" then checkText w
  else if name = "dst" then (readOptionalText w).map fun _ => ()
  else (readOptionalFormat w).map fun _ => ()

theorem readExtract_eq (v : Value) :
    readExtract v =
      readRecord "ExtractParams" ["file", "dst", "format"] checkExtractField v >>= fun fields =>
        textField fields "file" >>= fun file =>
          optionalField readOptionalText fields "dst" >>= fun dst =>
            optionalField readOptionalFormat fields "format" >>= fun format =>
              .ok (.extract file dst format) := by
  unfold readExtract
  refine bind_congr fun fields => bind_congr fun file => ?_
  unfold optionalField
  cases field? fields "dst" <;> cases field? fields "format" <;> rfl

theorem readExtract_eq_ok_iff (hv : holdsTag v = false) {o : Operation} :
    readExtract v = .ok o ↔ Declares .extract v o := by
  simp only [readExtract_eq, bind_eq_ok_iff]
  constructor
  · rintro ⟨fields, hfields, file, hfile, dst, hdst, format, hformat, h⟩
    obtain ⟨hrecord, -, hfile⟩ := (readRecord_textField_eq_ok_iff hv).mp ⟨hfields, hfile⟩
    have htags := hrecord.untagged hv
    cases h
    exact .extract hrecord hfile
      ((optionalField_eq_ok_iff readsOptionally_text hrecord.nodup htags).mp hdst)
      ((optionalField_eq_ok_iff readsOptionally_format hrecord.nodup htags).mp hformat)
  · intro h
    cases h with
    | @extract v fields file dst format hrecord hfile hdst hformat =>
      have htags := hrecord.untagged hv
      rw [← optionalField_eq_ok_iff readsOptionally_text hrecord.nodup htags] at hdst
      rw [← optionalField_eq_ok_iff readsOptionally_format hrecord.nodup htags] at hformat
      -- What a field gives is read of its value, so its value passes the check.
      have hcheck : ∀ f ∈ fields, checkExtractField f.1 f.2 = .ok () := by
        intro ⟨name, w⟩ hf
        have hfield := (field?_eq_some_iff hrecord.nodup).mpr hf
        have hname : name = "file" ∨ name = "dst" ∨ name = "format" := by
          simpa using hrecord.known _ hf
        rcases hname with rfl | rfl | rfl
        · exact (checkText_eq_ok_iff (htags _ hf)).mpr ⟨file, hrecord.unique hf hfile⟩
        · rw [optionalField, hfield] at hdst
          exact map_eq_ok_iff.mpr ⟨dst, hdst, rfl⟩
        · rw [optionalField, hfield] at hformat
          exact map_eq_ok_iff.mpr ⟨format, hformat, rfl⟩
      obtain ⟨hfields, hfile⟩ :=
        (readRecord_textField_eq_ok_iff hv).mpr ⟨hrecord, hcheck, hfile⟩
      exact ⟨fields, hfields, file, hfile, dst, hdst, format, hformat, rfl⟩

/-- The operation belongs to the command whose parameters it was read of. -/
theorem command_of_bind {c : Command} {o : Operation} (h : c.bind v = .ok o) : o.command = c := by
  cases c <;> simp only [Command.bind] at h
  case extract =>
    simp only [readExtract_eq, mapError_eq_ok, bind_eq_ok_iff] at h
    obtain ⟨_, _, _, _, _, _, _, _, h⟩ := h
    cases h
    rfl
  case checksum =>
    simp only [readChecksum, bind_eq_ok_iff] at h
    obtain ⟨_, _, _, _, _, _, _, _, h⟩ := h
    cases h
    rfl
  case checkDepends =>
    split at h
    · cases h
      rfl
    · cases h
      rfl
    · cases h
  all_goals
    obtain ⟨_, _, rfl⟩ := map_eq_ok_iff.mp h
    rfl

/-! ## Binding -/

theorem bind_move_iff (hv : holdsTag v = false) {o : Operation} :
    Command.bind .move v = .ok o ↔ Declares .move v o := by
  simp only [Command.bind, map_eq_ok_iff, readTransfer_eq_ok_iff hv]
  constructor
  · rintro ⟨t, ht, rfl⟩
    exact .move ht
  · intro h
    cases h with
    | move ht => exact ⟨_, ht, rfl⟩

theorem bind_copy_iff (hv : holdsTag v = false) {o : Operation} :
    Command.bind .copy v = .ok o ↔ Declares .copy v o := by
  simp only [Command.bind, map_eq_ok_iff, readTransfer_eq_ok_iff hv]
  constructor
  · rintro ⟨t, ht, rfl⟩
    exact .copy ht
  · intro h
    cases h with
    | copy ht => exact ⟨_, ht, rfl⟩

theorem bind_mkdir_iff (hv : holdsTag v = false) {o : Operation} :
    Command.bind .mkdir v = .ok o ↔ Declares .mkdir v o := by
  simp only [Command.bind, map_eq_ok_iff, mapError_eq_ok, readText_eq_ok_iff hv]
  constructor
  · rintro ⟨path, rfl, rfl⟩
    exact .mkdir path
  · intro h
    cases h with
    | mkdir path => exact ⟨path, rfl, rfl⟩

theorem bind_checkDepends_iff {o : Operation} :
    Command.bind .checkDepends v = .ok o ↔ Declares .checkDepends v o := by
  constructor
  · intro h
    simp only [Command.bind] at h
    split at h
    · cases h
      exact .nothing
    · cases h
      exact .noEntries
    · cases h
  · intro h
    cases h <;> rfl

/-- Each command with one form of parameters takes the parameters that it declares and no others,
    and makes of them the operation that they stand for.  What a command makes is always an
    operation of that command. -/
theorem bind_iff_declares (hv : holdsTag v = false) :
    (∀ c ∈ [move, copy, mkdir, extract, checksum, checkDepends],
      ∀ o, c.bind v = .ok o ↔ Declares c v o) ∧
    ∀ (c : Command) (o : Operation), c.bind v = .ok o → o.command = c := by
  refine ⟨fun c hc o => ?_, fun c o h => command_of_bind h⟩
  cases c with
  | move => exact bind_move_iff hv
  | copy => exact bind_copy_iff hv
  | mkdir => exact bind_mkdir_iff hv
  | extract => rw [Command.bind, mapError_eq_ok, readExtract_eq_ok_iff hv]
  | checksum => rw [Command.bind, readChecksum_eq_ok_iff hv]
  | checkDepends => exact bind_checkDepends_iff
  | execute | writeConfig => simp at hc

/-- An archive with its format, and a transfer without a destination. -/
theorem bind_iff_declares_archive :
    let archive : Value :=
      .mapping [(.string "format", .string "tgz"), (.string "file", .string "a.bin")]
    let transfer : Value := .mapping [(.string "src", .string "a"), (.string "dst", .string " ")]
    (holdsTag archive = false ∧ holdsTag transfer = false) ∧
      Command.bind .extract archive = .ok (.extract "a.bin" none (some .tarGz)) ∧
        ¬ ∃ o, Command.bind .move transfer = .ok o := by
  intro archive transfer
  have harchive : holdsTag archive = false := rfl
  have htransfer : holdsTag transfer = false := rfl
  obtain ⟨hbind, -⟩ := bind_iff_declares harchive
  obtain ⟨hbind', -⟩ := bind_iff_declares htransfer
  refine ⟨⟨harchive, htransfer⟩, (hbind .extract (by simp) _).mpr ?_, fun ⟨o, ho⟩ => ?_⟩
  · have hrecord : IsRecord ["file", "dst", "format"]
        [("format", .string "tgz"), ("file", .string "a.bin")] archive := ⟨rfl, by simp, by simp⟩
    exact .extract hrecord (by simp) (.absent (by simp)) (.given (by simp) .tgz)
  · cases (hbind' .move (by simp) o).mp ho with
    | @move v t ht =>
      obtain ⟨fields, ⟨hentries, -, -⟩, -, hdst, -, hblank⟩ := ht
      rw [← Yaml.mem_textEntries, ← Value.mapping.inj hentries] at hdst
      have hspace : t.dst = " " := by simpa using hdst
      rw [hspace] at hblank
      exact hblank (by decide)

end Untagged

end Command

end GameInstaller
