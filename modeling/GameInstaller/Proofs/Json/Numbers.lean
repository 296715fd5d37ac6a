import GameInstaller.Json.Reader
import GameInstaller.Json.Writer
import Mathlib.Data.Bool.AllAny
import Mathlib.Data.List.Basic

/-!
# JSON numbers

A number ends where a comma or a brace stands, and what stands behind it does not change how it is
read.  Whole numbers below 2⁶⁴ are read back from their digits; those with a fraction are rounded
more than once when they are read, so not all of them are.

* `Stops`     what may stand behind a value
* `onwards`   a step of which more of the text is left
* `ReadsBack` a number that is read as it was written

## Key results

- `number_append`: a number is read the same whatever stands behind it
- `number_toDigits`: whole numbers are read back
-/

namespace GameInstaller.Json

open Decimal Reader

/-- What may stand behind a value in an object. -/
inductive Stops : List Char → Prop where
  | comma (rest : List Char) : Stops (',' :: rest)
  | brace (rest : List Char) : Stops ('}' :: rest)

/-- A step that was made on the front of a text. -/
def onwards {α : Type} (rest : List Char) (s : Step α) : Step α := s.map fun (a, r) => (a, r ++ rest)

/-! ## The parts of an exponent -/

/-- Whether an exponent is negative, and what stands behind its sign. -/
def signOf (cs : List Char) : Bool × List Char :=
  match cs with
  | '+' :: r => (false, r)
  | '-' :: r => (true, r)
  | _ => (false, cs)

/-- The digits of an exponent, and the scaled number. -/
def exponentDigits (negative : Bool) (sig : Nat) (power : Int) (down : Bool) (cs : List Char) :
    Step Number :=
  if (cs.takeWhile isDigit).isEmpty then none
  else
    let e := (cs.takeWhile isDigit).foldl (fun n c => n * 10 + digitValue c) 0
    if Nat.pow 2 31 ≤ e then
      if sig ≠ 0 ∧ !down then none else some (.real (.zero negative), cs.dropWhile isDigit)
    else
      (ofParts negative sig (if down then power - e else power + e)).map fun x =>
        (.real x, cs.dropWhile isDigit)

theorem exponentPart_eq (negative : Bool) (sig : Nat) (power : Int) (cs : List Char) :
    exponentPart negative sig power cs =
      exponentDigits negative sig power (signOf cs).1 (signOf cs).2 := rfl

/-! ## The parts of a number -/

/-- The digits in front of a number. -/
def wholeDigits (c : Char) (cs : List Char) : Nat × Nat × List Char :=
  if c = '0' then (0, 1, cs) else takeDigits 0 0 (c :: cs)

/-- What follows digits of which only so many count. -/
def afterMore (negative : Bool) (sig more : Nat) : List Char → Step Number
  | '.' :: r => fractionPart negative sig more r
  | left => finish negative sig more left

/-- What follows the digits in front. -/
def afterDigits (negative : Bool) (c : Char) (sig : Nat) (cs : List Char) : Step Number :=
  match cs with
  | '.' :: r => fractionPart negative sig 0 r
  | 'e' :: r => exponentPart negative sig 0 r
  | 'E' :: r => exponentPart negative sig 0 r
  | d :: r =>
    if isDigit d then
      if c = '0' then none
      else afterMore negative sig ((d :: r).takeWhile isDigit).length ((d :: r).dropWhile isDigit)
    else some (number.whole negative sig, cs)
  | [] => some (number.whole negative sig, cs)

theorem number_eq (negative : Bool) {c : Char} (hc : isDigit c = true) (cs : List Char) :
    number negative (c :: cs) =
      afterDigits negative c (wholeDigits c cs).1 (wholeDigits c cs).2.2 := by
  rw [number, if_neg (by simp [hc])]
  rfl

section Append

variable {rest : List Char} (hrest : Stops rest)

include hrest

/-! ## Digits before more text -/

theorem takeWhile_digits_append (cs : List Char) :
    (cs ++ rest).takeWhile isDigit = cs.takeWhile isDigit := by
  induction cs with
  | nil => cases hrest <;> rfl
  | cons c cs ih => simp only [List.cons_append, List.takeWhile_cons, ih]

theorem dropWhile_digits_append (cs : List Char) :
    (cs ++ rest).dropWhile isDigit = cs.dropWhile isDigit ++ rest := by
  induction cs with
  | nil => cases hrest <;> rfl
  | cons c cs ih =>
    simp only [List.cons_append, List.dropWhile_cons, ih]
    split <;> rfl

theorem takeDigits_append (sig count : Nat) (cs : List Char) :
    takeDigits sig count (cs ++ rest) =
      ((takeDigits sig count cs).1, (takeDigits sig count cs).2.1,
        (takeDigits sig count cs).2.2 ++ rest) := by
  induction cs generalizing sig count with
  | nil => cases hrest <;> rfl
  | cons c cs ih =>
    rw [List.cons_append, takeDigits, takeDigits]
    split
    · exact ih _ _
    · rfl

theorem signOf_append (cs : List Char) :
    signOf (cs ++ rest) = ((signOf cs).1, (signOf cs).2 ++ rest) := by
  cases cs with
  | nil => cases hrest <;> rfl
  | cons c cs =>
    by_cases hplus : c = '+'
    · subst hplus
      rfl
    · by_cases hminus : c = '-'
      · subst hminus
        rfl
      · simp [signOf, hplus, hminus]

/-! ## Parts of a number before more text -/

theorem exponentPart_append (negative : Bool) (sig : Nat) (power : Int) (cs : List Char) :
    exponentPart negative sig power (cs ++ rest) =
      onwards rest (exponentPart negative sig power cs) := by
  rw [exponentPart_eq, exponentPart_eq, signOf_append hrest]
  dsimp only
  generalize (signOf cs).2 = ds
  rw [exponentDigits, exponentDigits, takeWhile_digits_append hrest, dropWhile_digits_append hrest]
  split
  · rfl
  · dsimp only
    split
    · split <;> rfl
    · simp [onwards, Function.comp_def]

theorem finish_append (negative : Bool) (sig : Nat) (power : Int) (cs : List Char) :
    finish negative sig power (cs ++ rest) = onwards rest (finish negative sig power cs) := by
  have hother {cs : List Char} (he : ∀ r, cs ≠ 'e' :: r) (hE : ∀ r, cs ≠ 'E' :: r) :
      finish negative sig power cs = (ofParts negative sig power).map fun x => (.real x, cs) := by
    unfold finish
    split
    · exact absurd rfl (he _)
    · exact absurd rfl (hE _)
    · rfl
  cases cs with
  | nil =>
    rw [List.nil_append, hother (by cases hrest <;> simp) (by cases hrest <;> simp),
      hother (by simp) (by simp)]
    simp [onwards, Function.comp_def]
  | cons c cs =>
    by_cases he : c = 'e'
    · subst he
      exact exponentPart_append hrest _ _ _ _
    · by_cases hE : c = 'E'
      · subst hE
        exact exponentPart_append hrest _ _ _ _
      · rw [List.cons_append, hother (by simp [he]) (by simp [hE]), hother (by simp [he]) (by simp [hE])]
        simp [onwards, Function.comp_def]

theorem fractionPart_append (negative : Bool) (sig : Nat) (power : Int) (cs : List Char) :
    fractionPart negative sig power (cs ++ rest) =
      onwards rest (fractionPart negative sig power cs) := by
  unfold fractionPart
  rw [takeDigits_append hrest]
  dsimp only
  generalize takeDigits sig 0 cs = taken
  obtain ⟨sig', count, left⟩ := taken
  dsimp only
  cases left with
  | nil =>
    have hfinish := finish_append hrest negative sig' (power - count) []
    rw [List.nil_append] at hfinish ⊢
    cases hrest <;> simp [isDigit, hfinish] <;> split <;> simp_all [onwards]
  | cons c left =>
    dsimp only [List.cons_append]
    split
    · rw [← List.cons_append, dropWhile_digits_append hrest, finish_append hrest]
    · split
      · rfl
      · exact finish_append hrest _ _ _ (c :: left)

theorem afterMore_append (negative : Bool) (sig more : Nat) (cs : List Char) :
    afterMore negative sig more (cs ++ rest) = onwards rest (afterMore negative sig more cs) := by
  have hother {cs : List Char} (h : ∀ r, cs ≠ '.' :: r) :
      afterMore negative sig more cs = finish negative sig more cs := by
    unfold afterMore
    split
    · exact absurd rfl (h _)
    · rfl
  cases cs with
  | nil =>
    rw [hother (by cases hrest <;> simp), hother (by simp)]
    exact finish_append hrest _ _ _ []
  | cons c cs =>
    by_cases hdot : c = '.'
    · subst hdot
      exact fractionPart_append hrest _ _ _ cs
    · rw [hother (by simp [hdot]), hother (by simp [hdot])]
      exact finish_append hrest _ _ _ (c :: cs)

theorem afterDigits_append (negative : Bool) (c : Char) (sig : Nat) (cs : List Char) :
    afterDigits negative c sig (cs ++ rest) = onwards rest (afterDigits negative c sig cs) := by
  cases cs with
  | nil => cases hrest <;> rfl
  | cons d cs =>
    by_cases hdot : d = '.'
    · subst hdot
      exact fractionPart_append hrest _ _ _ cs
    by_cases he : d = 'e'
    · subst he
      exact exponentPart_append hrest _ _ _ cs
    by_cases hE : d = 'E'
    · subst hE
      exact exponentPart_append hrest _ _ _ cs
    have hother (cs : List Char) : afterDigits negative c sig (d :: cs) =
        if isDigit d then
          if c = '0' then none
          else afterMore negative sig ((d :: cs).takeWhile isDigit).length
            ((d :: cs).dropWhile isDigit)
        else some (number.whole negative sig, d :: cs) := by
      unfold afterDigits
      split <;> simp_all
    rw [List.cons_append, hother, hother]
    split
    · split
      · rfl
      · rw [← List.cons_append, takeWhile_digits_append hrest, dropWhile_digits_append hrest]
        exact afterMore_append hrest _ _ _ _
    · rfl

/-- A number is read the same whatever stands behind it. -/
theorem number_append (negative : Bool) (cs : List Char) :
    number negative (cs ++ rest) = onwards rest (number negative cs) := by
  cases cs with
  | nil => cases hrest <;> rfl
  | cons c cs =>
    cases hc : isDigit c with
    | false => simp [number, hc, onwards]
    | true =>
      have hdigits : wholeDigits c (cs ++ rest) =
          ((wholeDigits c cs).1, (wholeDigits c cs).2.1, (wholeDigits c cs).2.2 ++ rest) := by
        unfold wholeDigits
        split
        · rfl
        · exact takeDigits_append hrest 0 0 (c :: cs)
      rw [List.cons_append, number_eq negative hc, number_eq negative hc, hdigits]
      exact afterDigits_append hrest negative c _ _

end Append

/-! ## Whole numbers -/

theorem isDigit_of_mem_toDigits {n : Nat} {c : Char} (h : c ∈ Nat.toDigits 10 n) :
    isDigit c = true :=
  Nat.isDigit_of_mem_toDigits (by decide) (by decide) h

theorem le_ofDigitChars (ds : List Char) (sig : Nat) : sig ≤ Nat.ofDigitChars 10 ds sig := by
  induction ds generalizing sig with
  | nil => exact Nat.le_refl _
  | cons d ds ih =>
    rw [Nat.ofDigitChars_cons]
    exact Nat.le_trans (by omega) (ih _)

/-- Digits are taken until they would pass 64 bits. -/
theorem takeDigits_digits {ds : List Char} (hds : ∀ c ∈ ds, isDigit c = true) {sig : Nat}
    (hmax : Nat.ofDigitChars 10 ds sig ≤ maxSignificand) (count : Nat) :
    takeDigits sig count ds = (Nat.ofDigitChars 10 ds sig, count + ds.length, []) := by
  induction ds generalizing sig count with
  | nil => rfl
  | cons d ds ih =>
    have hvalue : sig * 10 + digitValue d = 10 * sig + (d.toNat - '0'.toNat) := by
      rw [digitValue, Nat.mul_comm]
      rfl
    rw [Nat.ofDigitChars_cons] at hmax ⊢
    have hfits : sig * 10 + digitValue d ≤ maxSignificand :=
      hvalue ▸ Nat.le_trans (le_ofDigitChars ds _) hmax
    rw [takeDigits, if_pos (by simp [hds d List.mem_cons_self, hfits]), hvalue,
      ih (fun c hc => hds c (List.mem_cons_of_mem _ hc)) hmax, List.length_cons]
    congr 2
    omega

/-- No whole number but zero starts with the digit zero. -/
theorem toDigits_ne_zero {n : Nat} (hn : n ≠ 0) (r : List Char) : Nat.toDigits 10 n ≠ '0' :: r := by
  induction n using Nat.strongRecOn generalizing r with
  | ind n ih =>
    rw [Nat.toDigits_eq_if (by decide)]
    split
    · rename_i hlt
      have hall : ∀ m < 10, m ≠ 0 → Nat.digitChar m ≠ '0' := by decide
      intro h
      exact hall n hlt hn (List.cons.inj h).1
    · intro h
      obtain ⟨d, ds, hd⟩ := List.exists_cons_of_ne_nil (Nat.toDigits_ne_nil (n := n / 10) (b := 10))
      rw [hd, List.cons_append] at h
      refine ih (n / 10) (by omega) (by omega) ds ?_
      rw [hd, (List.cons.inj h).1]

/-- A whole number below 2⁶⁴ is read back from its digits. -/
theorem number_toDigits {n : Nat} (hn : n ≤ maxSignificand) :
    number false (Nat.toDigits 10 n) = some (.natural n, []) := by
  by_cases hzero : n = 0
  · subst hzero
    rfl
  obtain ⟨d, ds, hd⟩ := List.exists_cons_of_ne_nil (Nat.toDigits_ne_nil (n := n) (b := 10))
  have hdigits (c : Char) (hc : c ∈ d :: ds) : isDigit c = true :=
    isDigit_of_mem_toDigits (hd ▸ hc)
  have hvalue : Nat.ofDigitChars 10 (d :: ds) 0 = n := by
    rw [← hd, Nat.ofDigitChars_toDigits (by decide) (by decide)]
  have hfirst : d ≠ '0' := by
    rintro rfl
    exact toDigits_ne_zero hzero ds hd
  rw [hd, number_eq false (hdigits d List.mem_cons_self), wholeDigits, if_neg hfirst,
    takeDigits_digits hdigits (by rwa [hvalue]), hvalue]
  rfl

/-! ## The text of a number -/

/-- The characters of the text of a number that is finite: a digit is in front, behind the sign if
    there is one, and there is no control character. -/
structure NumberChars (cs : List Char) : Prop where
  first : ∃ c r, cs = c :: r ∧ isDigit c = true
  plain : ∀ c ∈ cs, 0x20 ≤ c.toNat

theorem plain_of_isDigit {c : Char} (h : isDigit c = true) : 0x20 ≤ c.toNat := by
  have hzero : '0' ≤ c := by
    rw [isDigit, Bool.and_eq_true, decide_eq_true_eq] at h
    exact h.1
  exact Nat.le_trans (by decide) hzero

theorem numberChars_toDigits (n : Nat) : NumberChars (Nat.toDigits 10 n) where
  first := by
    obtain ⟨d, ds, hd⟩ := List.exists_cons_of_ne_nil (Nat.toDigits_ne_nil (n := n) (b := 10))
    exact ⟨d, ds, hd, isDigit_of_mem_toDigits (hd ▸ List.mem_cons_self)⟩
  plain c hc := plain_of_isDigit (isDigit_of_mem_toDigits hc)

theorem NumberChars.append {cs ds : List Char} (h : NumberChars cs) (hds : ∀ c ∈ ds, 0x20 ≤ c.toNat) :
    NumberChars (cs ++ ds) where
  first := by
    obtain ⟨c, r, rfl, hc⟩ := h.first
    exact ⟨c, r ++ ds, rfl, hc⟩
  plain c hc := (List.mem_append.mp hc).elim (h.plain c) (hds c)

theorem numberChars_cons {c : Char} {r : List Char} (hc : isDigit c = true)
    (hr : ∀ d ∈ r, 0x20 ≤ d.toNat) : NumberChars (c :: r) where
  first := ⟨c, r, rfl, hc⟩
  plain := List.forall_mem_cons.mpr ⟨plain_of_isDigit hc, hr⟩

theorem numberChars_magnitude (st : Style) (f : Fraction) : NumberChars (st.magnitude f) := by
  have htext : NumberChars f.text := numberChars_toDigits f.digits
  have hzeros (n : Nat) : ∀ c ∈ List.replicate n '0', 0x20 ≤ c.toNat := by
    intro c hc
    rw [List.eq_of_mem_replicate hc]
    decide
  have hsign (b b' : Prop) [Decidable b] [Decidable b'] :
      ∀ c ∈ (if b then ['-'] else if b' then ['+'] else []), 0x20 ≤ c.toNat := by
    split
    · exact List.all_iff_forall_prop.mp (by decide)
    · split <;> exact List.all_iff_forall_prop.mp (by decide)
  obtain ⟨d, ds, hd, hdigit⟩ := htext.first
  have hplain := htext.plain
  rw [hd] at htext
  rw [hd, List.forall_mem_cons] at hplain
  unfold Style.magnitude
  rw [hd]
  refine iteInduction (fun _ => iteInduction (fun _ => ?_) fun _ => iteInduction (fun hpoint => ?_)
    fun _ => ?_) fun _ => ?_
  · exact (htext.append (hzeros _)).append (List.all_iff_forall_prop.mp (by decide))
  · -- The point stands behind the first digit or farther on.
    obtain ⟨n, hn⟩ : ∃ n, (((d :: ds).length : Int) + f.power).toNat = n + 1 :=
      ⟨(((d :: ds).length : Int) + f.power).toNat - 1, by omega⟩
    rw [hn, List.take_succ_cons, List.drop_succ_cons, List.cons_append]
    refine numberChars_cons hdigit fun c hc => ?_
    rcases List.mem_append.mp hc with hc | hc
    · exact hplain.2 c (List.mem_of_mem_take hc)
    · rcases List.mem_cons.mp hc with rfl | hc
      · decide
      · exact hplain.2 c (List.mem_of_mem_drop hc)
  · refine numberChars_cons (by decide) (List.forall_mem_cons.mpr ⟨by decide, fun c hc => ?_⟩)
    rcases List.mem_append.mp hc with hc | hc
    · exact hzeros _ c hc
    · exact htext.plain c hc
  · -- The mantissa has a point if it has more than one digit.
    cases ds with
    | nil =>
      exact (htext.append (List.forall_mem_cons.mpr ⟨by decide, hsign _ _⟩)).append
        (numberChars_toDigits _).plain
    | cons e ds =>
      exact ((numberChars_cons hdigit (List.forall_mem_cons.mpr ⟨by decide, hplain.2⟩)).append
        (List.forall_mem_cons.mpr ⟨by decide, hsign _ _⟩)).append (numberChars_toDigits _).plain

/-- The text of a real number: that of its magnitude, behind its sign; or null, which is no number. -/
theorem numberText_real_cases (x : Binary64) :
    (numberText (.real x)).toList = "null".toList ∨
      ∃ cs, NumberChars cs ∧ ((numberText (.real x)).toList = cs ∨
        (numberText (.real x)).toList = '-' :: cs) := by
  cases x with
  | nan => exact .inl rfl
  | infinite negative =>
    cases negative <;> exact .inl rfl
  | finite negative m e =>
    right
    refine ⟨if m = 0 then ['0', '.', '0'] else numberStyle.magnitude (shortest m e), ?_, ?_⟩
    · split
      · exact numberChars_cons (by decide) (List.all_iff_forall_prop.mp (by decide))
      · exact numberChars_magnitude _ _
    · rw [numberText, Style.text, String.toList_ofList]
      cases negative
      · exact .inl rfl
      · exact .inr rfl

end GameInstaller.Json
