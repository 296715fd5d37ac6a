import GameInstaller.Digest.File
import GameInstaller.Proofs.Actions
import GameInstaller.Proofs.Digest.Written
import GameInstaller.Proofs.Text

/-!
# Printed digests

Digests as they are printed: in lowercase, with as many digits as the algorithm has, so that what is
printed is read back.  Other spellings of a digest have blanks around it, or digits of the other
letter case.

* `Spells`         a text is a digest up to the blanks around it and the letter case of its digits
* `Hasher`         a hash function that takes a message piece by piece
* `Hasher.hexOf`   the loop that feeds it what the reads of a stream give

## Key results

- `length_digest`: how many bytes the digests of an algorithm have
- `parse_trim_eq_ok_iff`: what is read of a text between blanks
- `parse_display`: a digest that was read is read back of its display
- `Hasher.hexOf_eq`: the pieces in which a message is read make no difference
-/

namespace GameInstaller

/-! ## Hexadecimal digits -/

namespace Text

section Digits

variable {c : Char}

theorem toNat_lt_of_isHexDigit (h : isHexDigit c = true) : c.toNat < 128 := by
  unfold isHexDigit hexValue? at h
  split at h
  · rename_i hc
    exact Nat.lt_of_le_of_lt (UInt32.le_iff_toNat_le.mp hc.2) (by decide)
  split at h
  · rename_i hc
    exact Nat.lt_of_le_of_lt (UInt32.le_iff_toNat_le.mp hc.2) (by decide)
  split at h
  · rename_i hc
    exact Nat.lt_of_le_of_lt (UInt32.le_iff_toNat_le.mp hc.2) (by decide)
  · cases h

/-- No digit is a blank. -/
theorem isBlank_of_isHexDigit (h : isHexDigit c = true) : isBlank c = false :=
  forall_char_of_lt (p := fun c => isHexDigit c = true → isBlank c = false) (by decide +kernel)
    (toNat_lt_of_isHexDigit h) h

/-- Only letters of ASCII have another letter case. -/
theorem toLower_of_not_lt (h : ¬ c.toNat < 128) : c.toLower = c := by
  unfold Char.toLower
  refine dif_neg fun hupper => h ?_
  exact Nat.lt_of_le_of_lt (UInt32.le_iff_toNat_le.mp hupper.2) (by decide)

/-- Letter case makes no difference to what is a digit. -/
theorem isHexDigit_toLower : isHexDigit c.toLower = isHexDigit c := by
  by_cases hc : c.toNat < 128
  · exact forall_char_of_lt (p := fun c => isHexDigit c.toLower = isHexDigit c)
      (by decide +kernel) hc
  · rw [toLower_of_not_lt hc]

theorem toLower_toLower : c.toLower.toLower = c.toLower := by
  by_cases hc : c.toNat < 128
  · exact forall_char_of_lt (p := fun c => c.toLower.toLower = c.toLower) (by decide +kernel) hc
  · rw [toLower_of_not_lt hc, toLower_of_not_lt hc]

theorem hexDigit_lower {n : Nat} (h : n < 16) :
    isHexDigit (hexDigit n) = true ∧ (hexDigit n).toLower = hexDigit n := by
  have hall : ∀ n < 16, isHexDigit (hexDigit n) = true ∧ (hexDigit n).toLower = hexDigit n := by
    decide
  exact hall n h

end Digits

theorem length_hexChars (bytes : List UInt8) : (hexChars bytes).length = 2 * bytes.length := by
  induction bytes with
  | nil => rfl
  | cons b bytes ih =>
    rw [hexChars, List.flatMap_cons, List.length_append, ← hexChars, ih, List.length_cons]
    simp only [List.length_cons, List.length_nil]
    omega

/-- Bytes are written in digits with lowercase letters. -/
theorem hexChars_lower (bytes : List UInt8) :
    ∀ c ∈ hexChars bytes, isHexDigit c = true ∧ c.toLower = c := by
  intro c hc
  obtain ⟨b, -, hc⟩ := List.mem_flatMap.mp hc
  have hb : b.toNat < 256 := b.toNat_lt
  simp only [List.mem_cons, List.not_mem_nil, or_false] at hc
  rcases hc with rfl | rfl
  · exact hexDigit_lower (by omega)
  · exact hexDigit_lower (by omega)

end Text

namespace Digest

open Disk (ByteStream IoError)

/-! ## Lengths of digests -/

@[simp] theorem length_bytesLE (w : UInt32) : (bytesLE w).length = 4 := rfl

@[simp] theorem length_bytesBE (w : UInt32) : (bytesBE w).length = 4 := rfl

/-- Words in bytes, four bytes a word. -/
theorem length_flatMap_words {bytes : UInt32 → List UInt8} (h : ∀ w, (bytes w).length = 4)
    (words : List UInt32) : (words.flatMap bytes).length = 4 * words.length := by
  induction words with
  | nil => rfl
  | cons w words ih =>
    rw [List.flatMap_cons, List.length_append, h, ih, List.length_cons]
    omega

theorem Sha256.length_digest (data : ByteArray) : (Sha256.digest data).length = 32 :=
  length_flatMap_words length_bytesBE _

theorem Md5.length_digest (data : ByteArray) : (Md5.digest data).length = 16 :=
  length_flatMap_words length_bytesLE _

namespace Blake3

/-- A value of as many words as every chunk and every parent gives. -/
def Chaining.Full (cv : Chaining) : Prop := cv.words.size = 8

theorem full_start : start.Full := rfl

theorem full_compress (cv : Chaining) (block : Array UInt32) (counter length : Nat)
    (flags : UInt32) : (compress cv block counter length flags).Full := by
  simp [compress, Chaining.Full]

theorem full_chunkValue (data : ByteArray) (index : Nat) (final : UInt32) :
    (chunkValue data index final).Full := by
  unfold chunkValue
  refine List.foldlRecOn _ _ full_start fun cv _ k _ => ?_
  exact full_compress _ _ _ _ _

theorem full_parentValue (l r : Chaining) (final : UInt32) : (parentValue l r final).Full :=
  full_compress _ _ _ _ _

theorem full_pairUp {cvs : List Chaining} (h : ∀ cv ∈ cvs, cv.Full) :
    ∀ cv ∈ pairUp cvs, cv.Full := by
  fun_induction pairUp cvs with
  | case1 l r rest ih =>
    rw [List.forall_mem_cons]
    exact ⟨full_parentValue l r 0, ih fun cv hcv => h cv (by simp [hcv])⟩
  | case2 => exact h

theorem full_rootValue {cvs : List Chaining} (h : ∀ cv ∈ cvs, cv.Full) : (rootValue cvs).Full := by
  fun_induction rootValue cvs with
  | case1 => exact full_start
  | case2 cv => exact h cv List.mem_cons_self
  | case3 l r => exact full_parentValue l r root
  | case4 l r rest _ ih =>
    refine ih ?_
    rw [List.forall_mem_cons]
    exact ⟨full_parentValue l r 0, full_pairUp fun cv hcv => h cv (by simp [hcv])⟩

theorem length_digest (data : ByteArray) : (Blake3.digest data).length = 32 := by
  unfold digest
  dsimp only
  have hfull : ∀ value : Chaining, value.Full → (value.words.toList.flatMap bytesLE).length = 32 :=
    fun value hvalue => by
      rw [length_flatMap_words length_bytesLE, Array.length_toList, hvalue]
  refine hfull _ ?_
  split
  · exact full_chunkValue _ _ _
  · refine full_rootValue fun cv hcv => ?_
    obtain ⟨k, -, rfl⟩ := List.mem_map.mp hcv
    exact full_chunkValue _ _ _

end Blake3

/-- A digest has as many bytes as the algorithm has pairs of digits. -/
theorem length_digest (alg : Algorithm) (data : ByteArray) :
    2 * (alg.digest data).length = alg.hexLength := by
  cases alg with
  | sha256 => exact congrArg (2 * ·) (Sha256.length_digest data)
  | blake3 => exact congrArg (2 * ·) (Blake3.length_digest data)
  | md5 => exact congrArg (2 * ·) (Md5.length_digest data)

theorem hexDigest_toList (alg : Algorithm) (data : ByteArray) :
    (alg.hexDigest data).toList = Text.hexChars (alg.digest data) := String.toList_ofList

/-- What is printed of a digest has the digits of its algorithm. -/
theorem isHex_hexDigest (alg : Algorithm) (data : ByteArray) :
    IsHex alg.hexLength (alg.hexDigest data).toList := by
  rw [hexDigest_toList]
  refine ⟨?_, fun c hc => (Text.hexChars_lower _ c hc).1⟩
  rw [Text.length_hexChars, length_digest]

theorem lowercase_hexDigest (alg : Algorithm) (data : ByteArray) :
    lowercase (alg.hexDigest data).toList = alg.hexDigest data := by
  rw [hexDigest_toList, lowercase, List.map_congr_left fun c hc => (Text.hexChars_lower _ c hc).2,
    List.map_id']
  rfl

example : Algorithm.md5.hexDigest ByteArray.empty = "d41d8cd98f00b204e9800998ecf8427e" := by
  decide +kernel

/-! ## Spellings of a digest -/

/-- Letter case makes no difference to what is hexadecimal. -/
theorem isHex_lowercase_iff {count : Nat} {digits : List Char} :
    IsHex count (lowercase digits).toList ↔ IsHex count digits := by
  simp [IsHex, lowercase, Text.isHexDigit_toLower]

/-- A text is a digest, up to the blanks around it and the letter case of its digits. -/
def Spells (text : String) (e : Expected) : Prop :=
  ∃ before digits after, (∀ c ∈ before, Text.isBlank c = true) ∧
    (∀ c ∈ after, Text.isBlank c = true) ∧ lowercase digits = e.hex ∧
      text = String.ofList (before ++ (e.algorithm.label ++ ":" ++ String.ofList digits).toList ++ after)

theorem spells_display {e : Expected} (h : lowercase e.hex.toList = e.hex) :
    Spells e.display e :=
  ⟨[], e.hex.toList, [], nofun, nofun, h, by simp [Expected.display, String.append_assoc]⟩

theorem not_isBlank_written {alg : Algorithm} {digits : List Char}
    (h : ∀ c ∈ digits, Text.isHexDigit c = true) :
    ∀ c ∈ (alg.label ++ ":" ++ String.ofList digits).toList, Text.isBlank c = false := by
  rw [String.toList_append, String.toList_ofList, List.forall_mem_append]
  refine ⟨fun c hc => ?_, fun c hc => Text.isBlank_of_isHexDigit (h c hc)⟩
  have hlabel : ((alg.label ++ ":").toList.all fun c => !Text.isBlank c) = true := by
    cases alg <;> decide
  simpa using List.all_eq_true.mp hlabel c hc

/-- What is read of a text between blanks: the digests that it spells. -/
theorem parse_trim_eq_ok_iff {text : String} {e : Expected} :
    Expected.parse (Text.trim text) = .ok e ↔
      Spells text e ∧ IsHex e.algorithm.hexLength e.hex.toList := by
  rw [Expected.parse_eq_ok_iff, Expected.writes_iff]
  constructor
  · rintro ⟨digits, htext, hdigits, hhex⟩
    obtain ⟨before, after, hsplit, hbefore, hafter⟩ := Text.exists_between Text.isBlank text.toList
    refine ⟨⟨before, digits, after, hbefore, hafter, hhex.symm, ?_⟩, ?_⟩
    · rw [← htext, Text.trim, String.toList_ofList, ← hsplit, String.ofList_toList]
    · rw [hhex]
      exact isHex_lowercase_iff.mpr hdigits
  · rintro ⟨⟨before, digits, after, hbefore, hafter, hhex, rfl⟩, hdigits⟩
    rw [← hhex, isHex_lowercase_iff] at hdigits
    refine ⟨digits, ?_, hdigits, hhex.symm⟩
    rw [Text.trim_between hbefore (not_isBlank_written hdigits.2) hafter, String.ofList_toList]

/-- A digest that was read is read back of its display, which is what was read with lowercase
    digits. -/
theorem parse_display {s : String} {e : Expected} (h : Expected.parse s = .ok e) :
    Expected.parse e.display = .ok e ∧
      ∃ digits, s = e.algorithm.label ++ ":" ++ String.ofList digits ∧
        e.display = e.algorithm.label ++ ":" ++ lowercase digits := by
  obtain ⟨digits, hs, hdigits, hhex⟩ := Expected.writes_iff.mp (Expected.parse_eq_ok_iff.mp h)
  have hlower : lowercase (lowercase digits).toList = lowercase digits := by
    have hchars : Char.toLower ∘ Char.toLower = Char.toLower := funext fun c => Text.toLower_toLower
    rw [lowercase, lowercase, String.toList_ofList, List.map_map, hchars]
  refine ⟨?_, digits, hs, by rw [Expected.display, hhex]⟩
  rw [Expected.parse_eq_ok_iff, Expected.writes_iff]
  refine ⟨e.hex.toList, by rw [Expected.display, String.ofList_toList], ?_, ?_⟩
  · rw [hhex]
    exact isHex_lowercase_iff.mpr hdigits
  · rw [hhex, hlower]

/-! ## Messages in pieces -/

/-- A hash function that takes a message piece by piece. -/
structure Hasher where
  State : Type
  start : State
  update : State → ByteArray → State
  finish : State → List UInt8

namespace Hasher

/-- Taking pieces of a message gives the digest of the whole. -/
def Computes (h : Hasher) (alg : Algorithm) : Prop :=
  ∀ pieces : List ByteArray, h.finish (pieces.foldl h.update h.start) =
    alg.digest (pieces.foldl (· ++ ·) ByteArray.empty)

/-- The hash function that keeps a message until it ends. -/
def keeping (alg : Algorithm) : Hasher := ⟨ByteArray, ByteArray.empty, (· ++ ·), alg.digest⟩

theorem keeping_computes (alg : Algorithm) : (keeping alg).Computes alg := fun _ => rfl

/-- Take what the reads of a stream give, up to an empty read, which is the end, or a failure. -/
def feed (h : Hasher) (failure : Option IoError) : h.State → List ByteArray → Except IoError h.State
  | state, [] =>
    match failure with
    | some e => .error e
    | none => .ok state
  | state, piece :: rest =>
    if piece.size = 0 then .ok state else feed h failure (h.update state piece) rest

/-- The digest of what a stream yields, in lowercase hexadecimal. -/
def hexOf (h : Hasher) (s : ByteStream) : Except IoError String :=
  (h.feed s.failure h.start s.pieces).map fun state => Text.hexText (h.finish state)

theorem feed_eq (h : Hasher) (failure : Option IoError) {pieces : List ByteArray}
    (hpieces : ∀ piece ∈ pieces, piece.size ≠ 0) (state : h.State) :
    h.feed failure state pieces =
      match failure with
      | some e => .error e
      | none => .ok (pieces.foldl h.update state) := by
  induction pieces generalizing state with
  | nil => cases failure <;> rfl
  | cons piece rest ih =>
    rw [List.forall_mem_cons] at hpieces
    rw [feed, if_neg hpieces.1, ih hpieces.2]
    rfl

/-- However a stream is cut into reads, the loop gives the digest of all of it. -/
theorem hexOf_eq {h : Hasher} {alg : Algorithm} (hh : h.Computes alg) {s : ByteStream}
    (hs : ∀ piece ∈ s.pieces, piece.size ≠ 0) : h.hexOf s = alg.hexOfStream s := by
  rw [hexOf, feed_eq h s.failure hs, Algorithm.hexOfStream, ByteStream.readAll]
  cases s.failure with
  | some e => rfl
  | none => exact congrArg (fun bytes => Except.ok (Text.hexText bytes)) (hh s.pieces)

end Hasher

end Digest

end GameInstaller
