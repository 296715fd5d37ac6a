import GameInstaller.Library
import GameInstaller.Proofs.Text
import Mathlib.Data.List.Infix
import Mathlib.Data.String.Basic

/-!
# The library as a table

A row that is recorded is the one of its slug, and the rows of the other slugs stay; rows that are
in increasing order of their slugs stay in this order.  Rows are read back from the content of their
file, also when lines of text are added behind them.

* `Increasing`   rows in order, one for each slug
* `rowsIn?`      the rows in the content of a file, if there is a library in it

## Key results

- `get?_record`, `increasing_record`: what recording a row does to a table
- `rowsIn?_encode`: rows are read back
- `rowsIn?_append`: text behind the rows is not read
-/

namespace GameInstaller

namespace Rows

variable {rows : Rows} {e : LibraryEntry}

/-- Rows in increasing order of their slugs, so that each slug has one at most.  The order of texts is
    that of their code points, which is the order of their bytes in UTF-8. -/
def Increasing (rows : Rows) : Prop := rows.Pairwise fun r r' => r.slug < r'.slug

@[simp] theorem increasing_nil : Increasing [] := .nil

/-- The row of the slug is the one that was recorded, and the other slugs have the rows that they
    had. -/
theorem get?_record (e : LibraryEntry) (rows : Rows) (slug : String) :
    (rows.record e).get? slug = if slug = e.slug then some e else rows.get? slug := by
  have hcons (r : LibraryEntry) (rest : Rows) : get? (r :: rest) slug =
      if slug = r.slug then some r else get? rest slug := by
    by_cases h : slug = r.slug
    · simp [get?, h]
    · simp [get?, h, Ne.symm h]
  induction rows with
  | nil => exact hcons e []
  | cons r rest ih =>
    unfold record
    split
    · rw [hcons]
    split
    · rename_i heq
      rw [hcons, hcons, heq]
      split <;> rfl
    · rename_i hne
      rw [hcons, ih, hcons]
      by_cases h : slug = e.slug
      · subst h
        simp [hne]
      · simp [h]

theorem mem_record {r : LibraryEntry} (h : r ∈ rows.record e) : r = e ∨ r ∈ rows := by
  induction rows with
  | nil => exact .inl (List.mem_singleton.mp h)
  | cons r' rest ih =>
    unfold record at h
    split at h
    · exact List.mem_cons.mp h
    split at h
    · exact (List.mem_cons.mp h).imp_right (List.mem_cons_of_mem _)
    · rcases List.mem_cons.mp h with rfl | h
      · exact .inr List.mem_cons_self
      · exact (ih h).imp_right (List.mem_cons_of_mem _)

/-- Rows stay in order. -/
theorem increasing_record (e : LibraryEntry) (h : rows.Increasing) : (rows.record e).Increasing := by
  induction rows with
  | nil => exact List.pairwise_singleton _ _
  | cons r rest ih =>
    obtain ⟨hr, hrest⟩ := List.pairwise_cons.mp h
    unfold record
    split
    · rename_i hlt
      exact List.pairwise_cons.mpr ⟨fun r' hr' => (List.mem_cons.mp hr').elim (· ▸ hlt)
        fun hr' => hlt.trans (hr r' hr'), h⟩
    split
    · rename_i heq
      exact List.pairwise_cons.mpr ⟨fun r' hr' => heq ▸ hr r' hr', hrest⟩
    · rename_i hlt hne
      have hgt : r.slug < e.slug := lt_of_le_of_ne (not_lt.mp hlt) (Ne.symm hne)
      exact List.pairwise_cons.mpr ⟨fun r' hr' => (mem_record hr').elim (· ▸ hgt) (hr r'), ih hrest⟩

end Rows

namespace Library

/-! ## Fields -/

section Fields

variable {bytes tail : List UInt8}

/-- Bytes up to the end of a field are one. -/
theorem fields_append_fieldEnd (h : fieldEnd ∉ bytes) (cur rest : List UInt8) :
    fields cur (bytes ++ fieldEnd :: rest) = (cur.reverse ++ bytes) :: fields [] rest := by
  induction bytes generalizing cur with
  | nil => simp [fields]
  | cons b bytes ih =>
    obtain ⟨hb, hbytes⟩ := not_or.mp (List.mem_cons.not.mp h)
    rw [List.cons_append, fields, if_neg (Ne.symm hb), ih hbytes]
    simp

/-- Bytes that end no field are none. -/
theorem fields_append_of_not_mem (h : fieldEnd ∉ tail) (cur : List UInt8) :
    fields cur (bytes ++ tail) = fields cur bytes := by
  induction bytes generalizing cur with
  | nil =>
    rw [List.nil_append]
    induction tail generalizing cur with
    | nil => rfl
    | cons b tail ih =>
      obtain ⟨hb, htail⟩ := not_or.mp (List.mem_cons.not.mp h)
      rw [fields.eq_2, if_neg (Ne.symm hb), ih htail]
      rfl
  | cons b bytes ih =>
    rw [List.cons_append, fields, fields, ih, ih]

/-- The texts of a row. -/
def texts (e : LibraryEntry) : List String :=
  [e.slug, e.name, e.runner, e.directory.text, e.installedAt]

theorem fields_texts (all : List String) :
    fields [] (all.flatMap fun s => s.toUTF8.toList ++ [fieldEnd]) =
      all.map fun s => s.toUTF8.toList := by
  induction all with
  | nil => rfl
  | cons s rest ih =>
    rw [List.flatMap_cons, List.append_assoc, List.singleton_append,
      fields_append_fieldEnd (Text.all_ones_not_mem_toUTF8 s), ih]
    rfl

/-- Texts are read back from their bytes. -/
theorem mapM_fromUTF8? (all : List String) :
    ((all.map fun s => s.toUTF8.toList).mapM fun f => String.fromUTF8? ⟨f.toArray⟩) = some all := by
  have hread (s : String) : String.fromUTF8? ⟨s.toUTF8.toList.toArray⟩ = some s := by
    rw [Text.toList_eq]
    exact Text.strict?_toUTF8 s
  induction all with
  | nil => rfl
  | cons s rest ih =>
    rw [List.map_cons, List.mapM_cons, hread, ih]
    rfl

theorem rowsOf?_texts (rows : Rows) : rowsOf? (rows.flatMap texts) = some rows := by
  induction rows with
  | nil => rfl
  | cons e rest ih =>
    rw [List.flatMap_cons]
    change (rowsOf? (rest.flatMap texts)).map _ = _
    rw [ih]
    rfl

end Fields

/-! ## Contents -/

/-- The rows in the content of a file, if there is a library in it. -/
def rowsIn? (content : ByteArray) : Option Rows :=
  if content.toList = [] then none else decode? content

theorem header_ne_nil : header ≠ [] := by decide +kernel

theorem rowsIn?_of_header {content : ByteArray} {body : List UInt8}
    (h : content.toList = header ++ body) : rowsIn? content =
      ((fields [] body).mapM fun f => String.fromUTF8? ⟨f.toArray⟩).bind rowsOf? := by
  have hne : content.toList ≠ [] := by simp [h, header_ne_nil]
  have hempty : (header ++ body).isEmpty = false := by simp [header_ne_nil]
  have hprefix : header.isPrefixOf (header ++ body) = true := by simp
  rw [rowsIn?, if_neg hne]
  unfold decode?
  dsimp only
  rw [h, hempty, if_neg (by simp), if_pos hprefix, List.drop_left]

theorem rowsIn?_of_no_header {content : ByteArray} (h : ¬ header <+: content.toList) :
    rowsIn? content = none := by
  have h' : ¬ header.isPrefixOf content.toList = true := by rwa [List.isPrefixOf_iff_prefix]
  unfold rowsIn? decode?
  split
  · rfl
  · rename_i hne
    rw [if_neg (by simpa using hne), if_neg h']

/-- Rows are read back from the content of their file. -/
theorem rowsIn?_encode (rows : Rows) : rowsIn? (encode rows) = some rows := by
  have hbytes : (encode rows).toList = header ++ rows.flatMap encodeRow := by
    rw [Text.toList_eq, encode]
  have hrows : rows.flatMap encodeRow =
      (rows.flatMap texts).flatMap fun s => s.toUTF8.toList ++ [fieldEnd] := by
    rw [List.flatMap_assoc]
    rfl
  rw [rowsIn?_of_header hbytes, hrows, fields_texts, mapM_fromUTF8?, Option.bind_some, rowsOf?_texts]

/-- Text that is put behind a library is not read, and makes none. -/
theorem rowsIn?_append {content tail : ByteArray} {b : UInt8} {r : List UInt8}
    (htail : tail.toList = b :: r) (hb : b ∉ header) (hend : fieldEnd ∉ tail.toList) :
    rowsIn? (content ++ tail) = rowsIn? content := by
  by_cases hprefix : header <+: content.toList
  · obtain ⟨body, hbody⟩ := hprefix
    have hmore : (content ++ tail).toList = header ++ (body ++ tail.toList) := by
      rw [Text.toList_append, ← hbody, List.append_assoc]
    rw [rowsIn?_of_header hbody.symm, rowsIn?_of_header hmore, fields_append_of_not_mem hend]
  · -- The first byte of the text would be in the header.
    have hprefix' : ¬ header <+: (content ++ tail).toList := by
      rw [Text.toList_append]
      intro h
      rcases List.prefix_or_prefix_of_prefix h (List.prefix_append _ _) with h' | ⟨rest, hrest⟩
      · exact hprefix h'
      · rw [← hrest, List.prefix_append_right_inj, htail] at h
        cases rest with
        | nil => exact hprefix (by rw [← hrest, List.append_nil])
        | cons c rest =>
          obtain ⟨rfl, -⟩ := List.cons_prefix_cons.mp h
          exact hb (by rw [← hrest]; simp)
    rw [rowsIn?_of_no_header hprefix, rowsIn?_of_no_header hprefix']

end Library

end GameInstaller
