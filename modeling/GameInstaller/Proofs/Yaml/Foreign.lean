import GameInstaller.Proofs.Text
import GameInstaller.Yaml.Plain
import Mathlib.Data.List.TakeWhile

/-!
# Plain scalars that are text

A plain scalar that has a character which no number, boolean or null is written with is text.

* `isForeign`  characters of this kind

## Key results

- `Plain.value?_of_isForeign`: a scalar with such a character is text
-/

namespace GameInstaller.Yaml.Plain

/-- A character that no number, boolean or null is written with. -/
def isForeign (c : Char) : Bool :=
  !(Text.isHexDigit c || "+-.~xoinyINYtrulsTRULS".toList.contains c)

/-- A word without such characters. -/
def isNative (word : String) : Bool := word.toList.all fun c => !isForeign c

variable {cs : List Char} {c : Char}

/-- A character of this kind is none of the others. -/
theorem ne_of_isForeign (hc : isForeign c = true) {d : Char} (hd : isForeign d = false) : c ≠ d := by
  rintro rfl
  rw [hc] at hd
  cases hd

theorem hexValue?_of_isForeign (hc : isForeign c = true) : Text.hexValue? c = none := by
  simp [isForeign, Text.isHexDigit] at hc
  exact hc.1

theorem isDigit_of_isForeign (hc : isForeign c = true) : c.isDigit = false := by
  by_contra hdigit
  have hbounds := Text.isDigit_iff.mp (Bool.not_eq_false _ ▸ hdigit)
  have hvalue := hexValue?_of_isForeign hc
  simp [Text.hexValue?, hbounds] at hvalue

/-- A text with such a character is no word without one. -/
theorem notMem_of_isForeign (hmem : c ∈ cs) (hc : isForeign c = true) {words : List String}
    (hwords : words.all isNative = true) : words.contains (String.ofList cs) = false := by
  rw [List.contains_eq_mem, decide_eq_false_iff_not]
  intro hword
  have hnative := List.all_eq_true.mp (List.all_eq_true.mp hwords _ hword) c (by simpa using hmem)
  simp [hc] at hnative

theorem natural?_of_isForeign (base : Nat) (hmem : c ∈ cs) (hc : isForeign c = true) :
    natural? base cs = none := by
  obtain ⟨a, b, rfl⟩ := List.append_of_mem hmem
  have hdigit : digit? base c = none := by
    rw [digit?, hexValue?_of_isForeign hc]
    rfl
  -- Behind a character that is no digit nothing is read any more.
  have hnone (ds : List Char) : ds.foldl
      (fun acc d => acc.bind fun n => (digit? base d).map (base * n + ·)) none = none := by
    induction ds with
    | nil => rfl
    | cons d ds ih => simpa using ih
  simp [natural?, hdigit, hnone]

/-! ## Numbers -/

theorem based?_mem (hmem : c ∈ cs) (hc : isForeign c = true) {base : Nat} {ds : List Char}
    (h : based? cs = some (base, ds)) : c ∈ ds := by
  have hzero := ne_of_isForeign hc (show isForeign '0' = false by decide)
  have hx := ne_of_isForeign hc (show isForeign 'x' = false by decide)
  have ho := ne_of_isForeign hc (show isForeign 'o' = false by decide)
  have hb := ne_of_isForeign hc (show isForeign 'b' = false by decide)
  -- A zero and a letter for the base are taken off, neither of which is the character.
  unfold based? at h
  split at h <;> simp_all

/-- Numbers are read without a plus sign in front, where the character still stands. -/
theorem plus_or_not (hmem : c ∈ cs) (hc : isForeign c = true) :
    (∃ r, cs = '+' :: r ∧ c ∈ r) ∨ ∀ r, cs ≠ '+' :: r := by
  have hplus := ne_of_isForeign hc (show isForeign '+' = false by decide)
  by_cases h : ∃ r, cs = '+' :: r
  · obtain ⟨r, rfl⟩ := h
    exact .inl ⟨r, rfl, by simpa [hplus] using hmem⟩
  · exact .inr fun r hr => h ⟨r, hr⟩

theorem positive?_of_isForeign (limit : Nat) (hmem : c ∈ cs) (hc : isForeign c = true) :
    positive? limit cs = none := by
  have hnatural {ds : List Char} (base : Nat) (hds : c ∈ ds) := natural?_of_isForeign base hds hc
  obtain ⟨r, rfl, hr⟩ | hplus := plus_or_not hmem hc
  · cases hbased : based? r with
    | none => simp [positive?, hbased, hnatural 10 hr]
    | some p => simp [positive?, hbased, hnatural p.1 (based?_mem hr hc hbased), hnatural 10 hr]
  · cases hbased : based? cs with
    | none => simp [positive?, hbased, hnatural 10 hmem]
    | some p =>
      simp [positive?, hbased, hnatural p.1 (based?_mem hmem hc hbased), hnatural 10 hmem]

theorem negative?_of_isForeign (limit : Nat) (hmem : c ∈ cs) (hc : isForeign c = true) :
    negative? limit cs = none := by
  unfold negative?
  split
  · rename_i body
    have hbody : c ∈ body := by
      have hminus := ne_of_isForeign hc (show isForeign '-' = false by decide)
      simpa [hminus] using hmem
    have hdecimal := natural?_of_isForeign 10 hbody hc
    cases hbased : based? body with
    | none => simp [hdecimal]
    | some p =>
      obtain ⟨base, ds⟩ := p
      simp [hdecimal, natural?_of_isForeign base (based?_mem hbody hc hbased) hc]
  · rfl

/-- Digits are passed over, so the character stands in what is left of them. -/
theorem mem_dropDigits (hmem : c ∈ cs) (hc : isForeign c = true) :
    c ∈ cs.dropWhile Char.isDigit := by
  rw [← List.takeWhile_append_dropWhile (p := Char.isDigit) (l := cs), List.mem_append] at hmem
  refine hmem.resolve_left fun hdigit => ?_
  have := List.mem_takeWhile_imp hdigit
  rw [isDigit_of_isForeign hc] at this
  cases this

theorem mem_unsigned (hmem : c ∈ cs) (hc : isForeign c = true) : c ∈ unsigned cs := by
  have hplus := ne_of_isForeign hc (show isForeign '+' = false by decide)
  have hminus := ne_of_isForeign hc (show isForeign '-' = false by decide)
  unfold unsigned
  split <;> simp_all

theorem decimalParts?_of_isForeign (hmem : c ∈ cs) (hc : isForeign c = true) :
    decimalParts? cs = none := by
  have hpoint := ne_of_isForeign hc (show isForeign '.' = false by decide)
  have he := ne_of_isForeign hc (show isForeign 'e' = false by decide)
  have hE := ne_of_isForeign hc (show isForeign 'E' = false by decide)
  -- What is left of the digits is neither empty nor an exponent.
  have hexponent {ds : List Char} (hds : c ∈ ds) : natural? 10 (unsigned ds) = none :=
    natural?_of_isForeign 10 (mem_unsigned hds hc) hc
  have hdrop := mem_dropDigits hmem hc
  by_cases h : ∃ r, cs.dropWhile Char.isDigit = '.' :: r
  · obtain ⟨r, hr⟩ := h
    have hdrop' : c ∈ r.dropWhile Char.isDigit :=
      mem_dropDigits (by simpa [hr, hpoint] using hdrop) hc
    simp only [decimalParts?, hr]
    split
    · rfl
    · split <;> simp_all
  · have hnone : ∀ r, cs.dropWhile Char.isDigit ≠ '.' :: r := fun r hr => h ⟨r, hr⟩
    simp only [decimalParts?]
    split
    · rfl
    · split <;> simp_all

theorem real?_of_isForeign (hmem : c ∈ cs) (hc : isForeign c = true) : real? cs = none := by
  have hminus := notMem_of_isForeign hmem hc
    (show ["-.inf", "-.Inf", "-.INF"].all isNative = true by decide)
  have hnan := notMem_of_isForeign hmem hc
    (show [".nan", ".NaN", ".NAN"].all isNative = true by decide)
  obtain ⟨r, rfl, hr⟩ | hplus := plus_or_not hmem hc
  · simp only [real?, hminus, hnan, decimalParts?_of_isForeign (mem_unsigned hr hc) hc,
      notMem_of_isForeign hr hc (show [".inf", ".Inf", ".INF"].all isNative = true by decide)]
    simp
  · simp only [real?, hminus, hnan, decimalParts?_of_isForeign (mem_unsigned hmem hc) hc,
      notMem_of_isForeign hmem hc (show [".inf", ".Inf", ".INF"].all isNative = true by decide)]
    simp

/-- A scalar with a character that no number, boolean or null has is text. -/
theorem value?_of_isForeign (hmem : c ∈ cs) (hc : isForeign c = true) :
    value? cs = some (.string (String.ofList cs)) := by
  have hnull : isNull (String.ofList cs) = false := notMem_of_isForeign hmem hc (by decide)
  have hbool : bool? (String.ofList cs) = none := by
    rw [bool?, notMem_of_isForeign hmem hc (by decide), notMem_of_isForeign hmem hc (by decide)]
    rfl
  have hwhole : whole? cs = none := by
    simp [whole?, positive?_of_isForeign _ hmem hc, negative?_of_isForeign _ hmem hc]
  simp [value?, hnull, hbool, hwhole, real?_of_isForeign hmem hc]

end GameInstaller.Yaml.Plain
