import GameInstaller.Proofs.Path
import GameInstaller.Text.Blank
import GameInstaller.Text.Utf8
import Mathlib.Data.List.TakeWhile

/-!
# Texts

What texts are made of: characters of some range, blanks or none, lines, and bytes.

## Key results

- `isAlphanum_iff`: the ranges of letters and digits
- `allBlank_iff`: trimming leaves nothing of a text just when all of its characters are blank
- `trim_between`: trimming leaves what stands between blanks
- `lines_of_ended`: lines that end in newlines are what a text made of them is cut into
- `strict?_toUTF8`: a text is read back from its bytes
- `toUTF8_append`: texts in a row are the bytes in a row
-/

namespace GameInstaller.Text

/-! ## Characters -/

section Ranges

variable {c : Char}

theorem isUpper_iff : c.isUpper = true ↔ 'A' ≤ c ∧ c ≤ 'Z' := decide_eq_true_iff

theorem isLower_iff : c.isLower = true ↔ 'a' ≤ c ∧ c ≤ 'z' :=
  Bool.and_eq_true_iff.trans (and_congr decide_eq_true_iff decide_eq_true_iff)

theorem isDigit_iff : c.isDigit = true ↔ '0' ≤ c ∧ c ≤ '9' :=
  Bool.and_eq_true_iff.trans (and_congr decide_eq_true_iff decide_eq_true_iff)

theorem isAlphanum_iff :
    c.isAlphanum = true ↔ ('A' ≤ c ∧ c ≤ 'Z' ∨ 'a' ≤ c ∧ c ≤ 'z') ∨ '0' ≤ c ∧ c ≤ '9' := by
  rw [← isUpper_iff, ← isLower_iff, ← isDigit_iff, ← Bool.or_eq_true_iff, ← Bool.or_eq_true_iff]
  rfl

end Ranges

/-- What holds of the first characters of Unicode holds of a character among them. -/
theorem forall_char_of_lt {b : Nat} {p : Char → Prop} (h : ∀ n < b, p (Char.ofNat n)) {c : Char}
    (hc : c.toNat < b) : p c := by
  have hvalue := h c.toNat hc
  rwa [Char.ofNat_toNat] at hvalue

/-! ## Blank texts -/

theorem trimBoth_eq_nil_iff {p : Char → Bool} {cs : List Char} :
    trimBoth p cs = [] ↔ ∀ c ∈ cs, p c = true := by
  rw [trimBoth, List.reverse_eq_nil_iff, List.dropWhile_eq_nil_iff]
  constructor
  · intro h
    rw [← List.dropWhile_eq_nil_iff]
    -- What is left begins with a character that stays, so if all of it goes there is none.
    by_contra hne
    have hstays := List.head_dropWhile_not p hne
    have hgoes := h _ (List.mem_reverse.mpr (List.head_mem hne))
    simp [hgoes] at hstays
  · intro h
    simp [List.dropWhile_eq_nil_iff.mpr h]

theorem allBlank_iff {s : String} : allBlank s = true ↔ trim s = "" := by
  rw [allBlank, List.all_eq_true, trim, ← trimBoth_eq_nil_iff, ← String.toList_inj]
  simp

/-- What stands between characters that go is left, if nothing of it goes. -/
theorem trimBoth_between {p : Char → Bool} {before core after : List Char}
    (hbefore : ∀ c ∈ before, p c = true) (hcore : ∀ c ∈ core, p c = false)
    (hafter : ∀ c ∈ after, p c = true) : trimBoth p (before ++ core ++ after) = core := by
  rcases List.eq_nil_or_concat core with rfl | ⟨init, last, hinit⟩
  · rw [List.append_nil, trimBoth_eq_nil_iff, List.forall_mem_append]
    exact ⟨hbefore, hafter⟩
  rw [List.concat_eq_append] at hinit
  subst hinit
  have hlast : p last = false := hcore last (by simp)
  have hfront : (init ++ [last] ++ after).dropWhile p = init ++ [last] ++ after := by
    cases init with
    | nil => simp [hlast]
    | cons c init => simp [hcore c (by simp)]
  have hback : (after.reverse ++ last :: init.reverse).dropWhile p = last :: init.reverse := by
    rw [List.dropWhile_append_of_pos (by simpa using hafter),
      List.dropWhile_cons_of_neg (by simp [hlast])]
  rw [trimBoth, List.append_assoc, List.dropWhile_append_of_pos hbefore, hfront,
    List.reverse_append, List.reverse_append, List.reverse_singleton, List.singleton_append, hback]
  simp

/-- A text is what trimming leaves, between characters that go. -/
theorem exists_between (p : Char → Bool) (cs : List Char) :
    ∃ before after, cs = before ++ trimBoth p cs ++ after ∧ (∀ c ∈ before, p c = true) ∧
      ∀ c ∈ after, p c = true := by
  refine ⟨cs.takeWhile p, ((cs.dropWhile p).reverse.takeWhile p).reverse, ?_,
    fun c hc => List.mem_takeWhile_imp hc,
    fun c hc => List.mem_takeWhile_imp (List.mem_reverse.mp hc)⟩
  rw [trimBoth, List.append_assoc, ← List.reverse_append, List.takeWhile_append_dropWhile,
    List.reverse_reverse, List.takeWhile_append_dropWhile]

/-- Trimming leaves of a text what stands between blanks. -/
theorem trim_between {before core after : List Char} (hbefore : ∀ c ∈ before, isBlank c = true)
    (hcore : ∀ c ∈ core, isBlank c = false) (hafter : ∀ c ∈ after, isBlank c = true) :
    trim (String.ofList (before ++ core ++ after)) = String.ofList core := by
  rw [trim, String.toList_ofList, trimBoth_between hbefore hcore hafter]

/-! ## Lines -/

/-- Only a carriage return at the end of a line is dropped. -/
theorem dropReturn_of_not_mem {line : List Char} (h : '\r' ∉ line) : dropReturn line = line := by
  unfold dropReturn
  split
  · rename_i r hr
    have hmem : '\r' ∈ line.reverse := hr ▸ List.mem_cons_self
    exact absurd (List.mem_reverse.mp hmem) h
  · rfl

/-- Lines without breaks of their own are the lines of the text that they make. -/
theorem lines_of_ended {ls : List (List Char)} (hls : ∀ l ∈ ls, '\n' ∉ l ∧ '\r' ∉ l) :
    lines (ls.flatMap fun l => l ++ ['\n']) = ls := by
  induction ls with
  | nil => rfl
  | cons l ls ih =>
    obtain ⟨hline, hreturn⟩ := hls l List.mem_cons_self
    specialize ih fun l' hl' => hls l' (List.mem_cons_of_mem _ hl')
    obtain ⟨p, ps, hp⟩ := List.exists_cons_of_ne_nil
      (pieces_ne_nil '\n' (ls.flatMap fun l => l ++ ['\n']))
    rw [lines, hp] at ih
    rw [lines, List.flatMap_cons, List.append_assoc, List.singleton_append, pieces_append,
      pieces_of_not_mem hline, hp, List.singleton_append, closedLines, dropReturn_of_not_mem hreturn, ih]
    simp

/-! ## Texts as bytes -/

/-- A text is read back from its bytes. -/
theorem strict?_toUTF8 (s : String) : strict? s.toUTF8 = some s := by
  have hvalid : s.toUTF8.IsValidUTF8 := s.isValidUTF8
  rw [strict?, String.fromUTF8?, dif_pos hvalid]
  rfl

theorem toUTF8_append (s t : String) : (s ++ t).toUTF8 = s.toUTF8 ++ t.toUTF8 :=
  String.toByteArray_append

/-- The loop that lists the bytes of an array adds those that are left. -/
theorem toList_loop_eq (b : ByteArray) (i : Nat) (r : List UInt8) :
    ByteArray.toList.loop b i r = r.reverse ++ b.data.toList.drop i := by
  fun_induction ByteArray.toList.loop b i r with
  | case1 i r hlt ih =>
    have hlt' : i < b.data.toList.length := by simpa using hlt
    rw [ih, List.drop_eq_getElem_cons hlt']
    simp [ByteArray.get!, getElem!_pos b.data i hlt]
  | case2 i r hge =>
    rw [List.drop_eq_nil_of_le (by simpa using Nat.not_lt.mp hge), List.append_nil]

/-- The bytes of an array as a list. -/
theorem toList_eq (b : ByteArray) : b.toList = b.data.toList := by
  rw [ByteArray.toList, toList_loop_eq]
  rfl

theorem toList_append (b c : ByteArray) : (b ++ c).toList = b.toList ++ c.toList := by
  simp [toList_eq]

/-- The bytes of a text are those of its characters. -/
theorem toUTF8_toList (s : String) : s.toUTF8.toList = s.toList.flatMap String.utf8EncodeChar := by
  have hbytes : s.toUTF8 = s.toList.utf8Encode := String.utf8Encode_toList.symm
  rw [toList_eq, hbytes, List.utf8Encode, List.toList_data_toByteArray]

/-- The byte of all ones is in no text. -/
theorem all_ones_not_mem_toUTF8 (s : String) : (0xFF : UInt8) ∉ s.toUTF8.toList := by
  rw [toUTF8_toList, List.mem_flatMap]
  rintro ⟨c, -, hc⟩
  -- The bytes of a character are at most those that introduce four of them.
  have hne (n : Nat) (hn : n ≤ 0xF7) : (0xFF : UInt8) ≠ UInt8.ofNat n := by
    intro heq
    have hnat := congrArg UInt8.toNat heq
    rw [UInt8.toNat_ofNat'] at hnat
    change 255 = n % 256 at hnat
    omega
  unfold String.utf8EncodeChar at hc
  dsimp only at hc
  split at hc
  · rw [List.mem_singleton] at hc
    exact hne _ (by omega) hc
  split at hc
  · simp only [List.mem_cons, List.not_mem_nil, or_false] at hc
    rcases hc with hc | hc <;> exact hne _ (by omega) hc
  split at hc
  · simp only [List.mem_cons, List.not_mem_nil, or_false] at hc
    rcases hc with hc | hc | hc <;> exact hne _ (by omega) hc
  · simp only [List.mem_cons, List.not_mem_nil, or_false] at hc
    rcases hc with hc | hc | hc | hc <;> exact hne _ (by omega) hc

end GameInstaller.Text
