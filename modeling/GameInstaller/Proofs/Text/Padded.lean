import GameInstaller.Text.Hex
import Mathlib.Tactic.Linarith
import Mathlib.Tactic.Tauto

/-!
# Numbers in fields

Numbers that are filled up with zeros to a width have the order of their texts, as long as they fit
the width; and so have rows of such numbers, each with a mark behind it.

* `Layout`, `Layout.write`  the widths and marks of a row, and the text of a row of numbers

## Key results

- `paddedChars_lt_iff`: numbers that fit are in the order of their texts
- `Layout.write_lt_iff`: rows are in the order of their texts
- `Layout.write_injective`: a text is that of one row
-/

namespace GameInstaller.Text

/-! ## One number -/

/-- The characters of a number that is filled up to a width. -/
def paddedChars (width n : Nat) : List Char :=
  List.replicate (width - (Nat.toDigits 10 n).length) '0' ++ Nat.toDigits 10 n

theorem decimalPadded_toList (width n : Nat) :
    (decimalPadded width n).toList = paddedChars width n := String.toList_ofList

/-- The last digit of a number stands behind those of its tenth part. -/
theorem paddedChars_succ {width : Nat} (hwidth : 0 < width) (n : Nat) :
    paddedChars (width + 1) n = paddedChars width (n / 10) ++ [(n % 10).digitChar] := by
  unfold paddedChars
  rcases Nat.lt_or_ge n 10 with hn | hn
  · -- The tenth part is written as a zero, which takes the place of one that fills up.
    obtain ⟨w, rfl⟩ := Nat.exists_eq_succ_of_ne_zero (Nat.ne_of_gt hwidth)
    rw [Nat.toDigits_of_lt_base hn, Nat.div_eq_of_lt hn, Nat.mod_eq_of_lt hn,
      show Nat.toDigits 10 0 = ['0'] from rfl, ← List.replicate_succ']
    rfl
  · rw [Nat.toDigits_eq_if (by decide), if_neg (Nat.not_lt.mpr hn), List.length_append,
      List.length_singleton, Nat.add_sub_add_right, List.append_assoc]

theorem length_paddedChars {width n : Nat} (hwidth : 0 < width) (hn : n < 10 ^ width) :
    (paddedChars width n).length = width := by
  have hfits := (Nat.length_toDigits_le_iff (by decide) hwidth).mpr hn
  rw [paddedChars, List.length_append, List.length_replicate, Nat.sub_add_cancel hfits]

theorem isDigit_of_mem_paddedChars {width n : Nat} {c : Char} (h : c ∈ paddedChars width n) :
    c.isDigit = true := by
  rcases List.mem_append.mp h with hzero | hdigit
  · rw [List.eq_of_mem_replicate hzero]
    rfl
  · exact Nat.isDigit_of_mem_toDigits (by decide) (by decide) hdigit

/-- The digits are read back, however many zeros stand in front. -/
theorem ofDigitChars_paddedChars (width n : Nat) :
    Nat.ofDigitChars 10 (paddedChars width n) 0 = n := by
  have hzeros (k : Nat) (ds : List Char) :
      Nat.ofDigitChars 10 (List.replicate k '0' ++ ds) 0 = Nat.ofDigitChars 10 ds 0 := by
    induction k with
    | zero => rfl
    | succ k ih => simpa [List.replicate_succ, Nat.ofDigitChars] using ih
  rw [paddedChars, hzeros, Nat.ofDigitChars_toDigits (by decide) (by decide)]

theorem paddedChars_injective (width : Nat) : Function.Injective (paddedChars width) := by
  intro m n h
  rw [← ofDigitChars_paddedChars width m, h, ofDigitChars_paddedChars]

/-! ## Texts in order -/

/-- Of texts that start alike long, the starts decide. -/
theorem append_lt_append_iff {xs ys : List Char} (h : xs.length = ys.length) (rest rest' : List Char) :
    xs ++ rest < ys ++ rest' ↔ xs < ys ∨ xs = ys ∧ rest < rest' := by
  induction xs generalizing ys with
  | nil =>
    obtain rfl := List.eq_nil_of_length_eq_zero h.symm
    simp
  | cons x xs ih =>
    obtain ⟨y, ys, rfl⟩ := List.exists_cons_of_length_eq_add_one h.symm
    rw [List.cons_append, List.cons_append, List.cons_lt_cons_iff, List.cons_lt_cons_iff,
      ih (Nat.succ.inj h), List.cons.injEq]
    tauto

theorem digitChar_lt_iff : ∀ m < 10, ∀ n < 10, (m.digitChar < n.digitChar ↔ m < n) := by
  decide

theorem digit_lt_iff {m n : Nat} (hm : m < 10) (hn : n < 10) :
    [m.digitChar] < [n.digitChar] ↔ m < n := by
  rw [List.cons_lt_cons_iff, digitChar_lt_iff m hm n hn]
  simp

/-- Numbers that fit a width are in the order of their texts. -/
theorem paddedChars_lt_iff {width m n : Nat} (hwidth : 0 < width) (hm : m < 10 ^ width)
    (hn : n < 10 ^ width) : paddedChars width m < paddedChars width n ↔ m < n := by
  -- By the width: the digits before the last one decide, and are those of the tenth parts.
  induction width, hwidth using Nat.le_induction generalizing m n with
  | base =>
    have hone {k : Nat} (hk : k < 10) : paddedChars 1 k = [k.digitChar] := by
      rw [paddedChars, Nat.toDigits_of_lt_base hk]
      rfl
    exact hone hm ▸ hone hn ▸ digit_lt_iff hm hn
  | succ width hwidth ih =>
    have hm' : m / 10 < 10 ^ width := Nat.div_lt_of_lt_mul (by rwa [Nat.pow_succ'] at hm)
    have hn' : n / 10 < 10 ^ width := Nat.div_lt_of_lt_mul (by rwa [Nat.pow_succ'] at hn)
    have hlength : (paddedChars width (m / 10)).length = (paddedChars width (n / 10)).length := by
      rw [length_paddedChars hwidth hm', length_paddedChars hwidth hn']
    rw [paddedChars_succ hwidth, paddedChars_succ hwidth, append_lt_append_iff hlength, ih hm' hn',
      (paddedChars_injective width).eq_iff,
      digit_lt_iff (Nat.mod_lt _ (by decide)) (Nat.mod_lt _ (by decide))]
    omega

/-! ## Rows of numbers -/

/-- The widths of the numbers in a row, and the marks behind them. -/
abbrev Layout := List (Nat × Char)

namespace Layout

/-- The text of a row of numbers. -/
def write : Layout → List Nat → List Char
  | (width, mark) :: layout, n :: row => paddedChars width n ++ mark :: write layout row
  | _, _ => []

/-- A row that has a number for each width of a layout, and one that fits it. -/
def Fits (layout : Layout) (row : List Nat) : Prop :=
  List.Forall₂ (fun field n => 0 < field.1 ∧ n < 10 ^ field.1) layout row

variable {layout : Layout} {row row' : List Nat}

theorem length_write (h : layout.Fits row) :
    (layout.write row).length = (layout.map fun field => field.1 + 1).sum := by
  induction h with
  | nil => rfl
  | cons hn _ ih =>
    rw [write, List.length_append, List.length_cons, ih, length_paddedChars hn.1 hn.2,
      List.map_cons, List.sum_cons]
    omega

/-- Rows that fit are in the order of their texts. -/
theorem write_lt_iff (h : layout.Fits row) (h' : layout.Fits row') :
    layout.write row < layout.write row' ↔ row < row' := by
  induction h generalizing row' with
  | nil =>
    cases h'
    simp [write]
  | @cons field n layout row hn hrow ih =>
    cases h' with
    | cons hn' hrow' =>
      rename_i n' row'
      have hlength : (paddedChars field.1 n).length = (paddedChars field.1 n').length := by
        rw [length_paddedChars hn.1 hn.2, length_paddedChars hn'.1 hn'.2]
      rw [write, write, append_lt_append_iff hlength, paddedChars_lt_iff hn.1 hn.2 hn'.2,
        (paddedChars_injective _).eq_iff, List.cons_lt_cons_iff, List.cons_lt_cons_iff, ih hrow']
      simp

/-- What stands before a mark is told by the mark, if it has no digit. -/
theorem write_injective (hmarks : ∀ field ∈ layout, field.2.isDigit = false)
    (hrow : row.length = layout.length) (hrow' : row'.length = layout.length)
    (h : layout.write row = layout.write row') : row = row' := by
  induction layout generalizing row row' with
  | nil =>
    rw [List.eq_nil_of_length_eq_zero hrow, List.eq_nil_of_length_eq_zero hrow']
  | cons field layout ih =>
    obtain ⟨n, row, rfl⟩ := List.exists_cons_of_length_eq_add_one hrow
    obtain ⟨n', row', rfl⟩ := List.exists_cons_of_length_eq_add_one hrow'
    obtain ⟨hmark, hmarks⟩ := List.forall_mem_cons.mp hmarks
    -- The digits in front of the mark are the number, and the rest of the row is behind the mark.
    have hdigits (k : Nat) (rest : List Char) :
        (paddedChars field.1 k ++ field.2 :: rest).takeWhile Char.isDigit =
          paddedChars field.1 k := by
      rw [List.takeWhile_append_of_pos fun _ => isDigit_of_mem_paddedChars,
        List.takeWhile_cons_of_neg (by simp [hmark]), List.append_nil]
    rw [write, write] at h
    have hn := congrArg (List.takeWhile Char.isDigit) h
    rw [hdigits, hdigits] at hn
    rw [hn, List.append_cancel_left_eq, List.cons.injEq] at h
    rw [paddedChars_injective _ hn, ih hmarks (Nat.succ.inj hrow) (Nat.succ.inj hrow') h.2]

end Layout

end GameInstaller.Text
