import GameInstaller.Digest.Algorithm

/-!
# Written digests

A text is read as a digest just when it writes one: the name of an algorithm, a colon, and as many
hexadecimal digits as the digests of the algorithm have.
-/

namespace GameInstaller.Digest

/-- A list of hexadecimal digits of the given length. -/
def IsHex (count : Nat) (digits : List Char) : Prop :=
  digits.length = count ∧ ∀ c ∈ digits, Text.isHexDigit c = true

/-- Digits with lowercase letters. -/
def lowercase (digits : List Char) : String := String.ofList (digits.map Char.toLower)

/-- The digest that a text writes. -/
inductive Writes : String → Expected → Prop where
  | sha256 {digits : List Char} (h : IsHex 64 digits) :
      Writes ("sha256:" ++ String.ofList digits) ⟨.sha256, lowercase digits⟩
  | blake3 {digits : List Char} (h : IsHex 64 digits) :
      Writes ("blake3:" ++ String.ofList digits) ⟨.blake3, lowercase digits⟩
  | md5 {digits : List Char} (h : IsHex 32 digits) :
      Writes ("md5:" ++ String.ofList digits) ⟨.md5, lowercase digits⟩

namespace Expected

theorem splitColon_eq_some_iff {cs label hex : List Char} :
    splitColon cs = some (label, hex) ↔ cs = label ++ ':' :: hex ∧ ':' ∉ label := by
  induction cs generalizing label with
  | nil => simp [splitColon]
  | cons c cs ih =>
    rw [splitColon]
    split
    · -- The text begins with its colon, so the label is empty.
      subst c
      cases label with
      | nil => simp [eq_comm]
      | cons l label =>
        refine iff_of_false (by simp) fun ⟨hcs, hno⟩ => hno ?_
        rw [(List.cons.inj hcs).1]
        exact List.mem_cons_self
    · rename_i hc
      cases label with
      | nil => simp [hc]
      | cons l label =>
        rw [Option.map_eq_some_iff]
        constructor
        · rintro ⟨⟨label', hex'⟩, hsplit, heq⟩
          cases heq
          obtain ⟨rfl, hno⟩ := ih.mp hsplit
          exact ⟨rfl, by simp [hno, Ne.symm hc]⟩
        · rintro ⟨hcs, hno⟩
          obtain ⟨rfl, htail⟩ := List.cons.inj hcs
          have hno' : ':' ∉ label := fun h => hno (List.mem_cons_of_mem _ h)
          exact ⟨(label, hex), ih.mpr ⟨htail, hno'⟩, rfl⟩

theorem ofLabel?_eq_some_iff {label : String} {alg : Algorithm} :
    Algorithm.ofLabel? label = some alg ↔ label = alg.label := by
  constructor
  · intro h
    unfold Algorithm.ofLabel? at h
    split at h <;> cases h <;> rfl
  · rintro rfl
    cases alg <;> rfl

theorem writes_iff {s : String} {e : Expected} :
    Writes s e ↔ ∃ digits, s = e.algorithm.label ++ ":" ++ String.ofList digits ∧
      IsHex e.algorithm.hexLength digits ∧ e.hex = lowercase digits := by
  constructor
  · rintro (@⟨digits, h⟩ | @⟨digits, h⟩ | @⟨digits, h⟩)
    all_goals exact ⟨digits, by simp [Algorithm.label], h, rfl⟩
  · obtain ⟨alg, hex⟩ := e
    rintro ⟨digits, rfl, h, rfl⟩
    cases alg with
    | sha256 => exact .sha256 h
    | blake3 => exact .blake3 h
    | md5 => exact .md5 h

/-- What is read of a text is the digest that it writes. -/
theorem parse_eq_ok_iff {s : String} {e : Expected} : parse s = .ok e ↔ Writes s e := by
  rw [writes_iff]
  constructor
  · intro h
    unfold parse at h
    split at h
    · cases h
    rename_i label hex hsplit
    split at h
    · cases h
    rename_i alg halg
    split at h
    · rename_i hhex
      obtain rfl := Except.ok.inj h
      obtain ⟨hs, -⟩ := splitColon_eq_some_iff.mp hsplit
      have hlabel := ofLabel?_eq_some_iff.mp halg
      refine ⟨hex, ?_, ⟨hhex.1, List.all_eq_true.mp hhex.2⟩, rfl⟩
      rw [← hlabel, ← String.toList_inj, hs]
      simp
    · cases h
  · obtain ⟨alg, hex⟩ := e
    rintro ⟨digits, rfl, ⟨hlen, hdigits⟩, rfl⟩
    have hsplit : splitColon (alg.label ++ ":" ++ String.ofList digits).toList =
        some (alg.label.toList, digits) := by
      rw [splitColon_eq_some_iff]
      refine ⟨by simp, ?_⟩
      cases alg <;> decide
    have halg : Algorithm.ofLabel? (String.ofList alg.label.toList) = some alg :=
      ofLabel?_eq_some_iff.mpr (by simp)
    simp only [parse, hsplit, halg]
    rw [if_pos ⟨hlen, List.all_eq_true.mpr hdigits⟩]
    rfl

end Expected

end GameInstaller.Digest
