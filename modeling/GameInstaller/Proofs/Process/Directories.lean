import GameInstaller.Process.Spawn
import GameInstaller.Proofs.Disk.Places
import GameInstaller.Proofs.Install.Bases

/-!
# Paths behind the working directory

A path that is joined to a directory is followed through that directory, and on from there.  How the
directory was come to makes no difference to the names behind it, but for the number of links that may
still be followed.

A process that has entered a directory follows the path of that directory from there.  An absolute path
leads back; another one leads to what has its names in the directory, if there is such a thing.

* `AsFar x y`        two attempts come to the same, as far as neither gives up over too many links
* `Returns d p l`    seen from the directory that `p` leads to, `p` leads to that directory

## Key results

- `walk_links`: links that are not needed make no difference
- `walk_append_error`, `walk_append_stops`: names behind names that lead to no directory
- `resolve_div`: a path that is joined to another is followed over the names of both
- `DirAt.eq_working_of_dots`: a relative path of dots leads nowhere else
- `Returns.asFar`, `returns_of_asFar`: every path behind a directory leads from there where it leads from
  outside, if the directory leads back, and only then
-/

namespace GameInstaller

/-- The shortest relative path with a slash; it leads nowhere else. -/
def Path.dotSlash : Path := ⟨"./"⟩

namespace Disk

open Text (pieces)

/-! ## Walks -/

/-- Two attempts come to the same, unless one of them gives up over too many links. -/
def AsFar {α : Type} (x y : Except IoError α) : Prop :=
  x = y ∨ x = .error (.system .loop) ∨ y = .error (.system .loop)

/-- With more links a walk comes to the same, unless it gives up with fewer. -/
theorem walk_links (d : Disk) (final : Final) (links more : Nat) (cur : Location) (slash : Bool)
    (names : List String) : walk d final links cur slash names = .error .loop ∨
      walk d final (links + more) cur slash names = walk d final links cur slash names := by
  fun_induction walk d final links cur slash names with
  | case1 => exact .inr (by rw [walk])
  | case2 _ _ _ _ ih | case3 _ _ _ _ _ ih =>
    rw [walk]
    simpa using ih
  | case4 _ _ _ _ _ hdot hup hlen => exact .inr (by rw [walk, if_neg hdot, if_neg hup, if_pos hlen])
  | case5 _ _ _ _ _ hdot hup hlen here hhere hrest
  | case6 _ _ _ _ _ hdot hup hlen here hhere hrest
  | case7 _ _ _ _ _ hdot hup hlen here hhere hrest
  | case9 _ _ _ _ _ hdot hup hlen here content mode shared hhere hrest
  | case10 _ _ _ _ _ hdot hup hlen here content mode shared hhere hrest
  | case11 _ _ _ _ _ hdot hup hlen here target hhere hrest =>
    refine .inr ?_
    rw [walk_cons _ _ hdot hup hlen, hhere]
    simp [walkAt, hrest, here]
  | case12 => exact .inl rfl
  | case8 _ _ _ _ _ hdot hup hlen here hhere hrest ih =>
    rw [walk_cons _ _ hdot hup hlen, hhere]
    simpa [walkAt, hrest] using ih
  | case13 _ _ _ _ hdot hup hlen here target hhere hrest links ih =>
    rw [walk_cons _ _ hdot hup hlen, hhere, Nat.succ_add]
    simpa [walkAt, hrest] using ih

/-- Names that cannot be followed cannot be followed to more names. -/
theorem walk_append_error {d : Disk} {links : Nat} {cur : Location} {slash : Bool}
    {names rest : List String} {e : Errno} (h : walk d .follow links cur slash names = .error e)
    (hrest : rest ≠ []) (final : Final) (slash' : Bool) :
    walk d final links cur slash' (names ++ rest) = .error e := by
  fun_induction walk d .follow links cur slash names generalizing slash' with
  | case1 | case5 | case7 | case9 | case11 => cases h
  | case2 _ _ _ _ ih =>
    rw [List.cons_append, walk, if_pos rfl, ih h]
  | case3 _ _ _ _ _ ih =>
    rw [List.cons_append, walk, if_neg (by decide), if_pos rfl, ih h]
  | case4 _ _ _ _ _ hdot hup hlen =>
    rw [List.cons_append, walk, if_neg hdot, if_neg hup, if_pos hlen, ← h]
  | case6 _ _ _ _ _ hdot hup hlen here hhere _
  | case10 _ _ _ _ _ hdot hup hlen here _ _ _ hhere _ =>
    cases h
    rw [List.cons_append, walk_cons _ _ hdot hup hlen, hhere]
    simp [walkAt, hrest]
  | case8 _ _ _ _ _ hdot hup hlen here hhere _ ih =>
    rw [List.cons_append, walk_cons _ _ hdot hup hlen, hhere]
    simpa [walkAt, hrest] using ih h slash'
  | case12 _ _ _ _ hdot hup hlen here target hhere _ =>
    cases h
    rw [List.cons_append, walk_cons _ _ hdot hup hlen, hhere]
    simp [walkAt, hrest]
  | case13 _ _ _ rest' hdot hup hlen here target hhere _ links ih =>
    have hmore : (rest' ++ rest).isEmpty = false := by simp [hrest]
    rw [List.cons_append, walk_cons _ _ hdot hup hlen, hhere]
    simpa [walkAt, hmore, List.append_assoc] using ih h slash'

/-- Names that lead to no directory cannot be followed to more names. -/
theorem walk_append_stops {d : Disk} {links : Nat} {cur : Location} {slash : Bool}
    {names rest : List String} {r : Resolved} (h : walk d .follow links cur slash names = .ok r)
    (hr : r.node ≠ some .dir) (hrest : rest ≠ []) (final : Final) (slash' : Bool) :
    walk d final links cur slash' (names ++ rest) = .error .noEntry ∨
      walk d final links cur slash' (names ++ rest) = .error .notDirectory := by
  fun_induction walk d .follow links cur slash names generalizing slash' with
  | case1 =>
    cases h
    exact absurd rfl hr
  | case2 _ _ _ _ ih =>
    rw [List.cons_append, walk, if_pos rfl]
    exact ih h slash'
  | case3 _ _ _ _ _ ih =>
    rw [List.cons_append, walk, if_neg (by decide), if_pos rfl]
    exact ih h slash'
  | case4 | case6 | case10 | case12 => cases h
  | case5 _ _ _ _ _ hdot hup hlen here hhere _ =>
    rw [List.cons_append, walk_cons _ _ hdot hup hlen, hhere]
    simp [walkAt, hrest]
  | case7 =>
    cases h
    exact absurd rfl hr
  | case8 _ _ _ _ _ hdot hup hlen here hhere _ ih =>
    rw [List.cons_append, walk_cons _ _ hdot hup hlen, hhere]
    simpa [walkAt, hrest] using ih h slash'
  | case9 _ _ _ _ _ hdot hup hlen here _ _ _ hhere _ =>
    rw [List.cons_append, walk_cons _ _ hdot hup hlen, hhere]
    simp [walkAt, hrest]
  | case11 _ _ _ _ _ _ _ _ _ _ _ hlast => simp at hlast
  | case13 _ _ _ rest' hdot hup hlen here target hhere _ links ih =>
    have hmore : (rest' ++ rest).isEmpty = false := by simp [hrest]
    rw [List.cons_append, walk_cons _ _ hdot hup hlen, hhere]
    simpa [walkAt, hmore, List.append_assoc] using ih h slash'

/-! ## Paths -/

variable {p q : Path}

/-- The names on a path that is joined to another are those of both. -/
theorem segments_div (hp : p.text ≠ "") (hq : q.isRelative = true) :
    segments (p / q).text = segments p.text ++ segments q.text := by
  have hchars := Path.div_chars (p := p) hq
  rcases p.stemChars_cases with ⟨htext, -⟩ | ⟨cs, htext, hstem⟩ | ⟨cs, c, -, htext, hstem⟩
  · exact absurd (String.toList_eq_nil_iff.mp htext) hp
  · rw [hstem] at hchars
    unfold segments
    rw [hchars, htext, List.append_assoc, List.singleton_append, Text.pieces_append, Text.pieces_append,
      List.filter_append, List.filter_append, List.map_append, List.map_append]
    simp [pieces]
  · rw [hstem, ← htext, List.append_assoc, List.singleton_append] at hchars
    exact segments_of_append hchars

theorem endsInSlash_div (hq : q.isRelative = true) (hne : q.text ≠ "") :
    endsInSlash (p / q).text = endsInSlash q.text := by
  unfold endsInSlash
  rw [Path.div_chars hq, List.getLast?_append_of_ne_nil _ (by simpa using hne)]

theorem div_text (hq : q.isRelative = true) : (p / q).text = String.ofList p.stemChars ++ q.text := by
  apply String.toList_injective
  rw [Path.div_chars hq, String.toList_append, String.toList_ofList]

/-- What stands before a path that is joined to another is the other, and at most a slash. -/
theorem exists_stemChars (p : Path) : ∃ cs, p.stemChars = p.text.toList ++ cs ∧ ∀ c ∈ cs, c = '/' := by
  rcases p.stemChars_cases with ⟨htext, hstem⟩ | ⟨cs, htext, hstem⟩ | ⟨cs, c, -, htext, hstem⟩
  · exact ⟨[], by rw [htext, hstem]; rfl, by simp⟩
  · exact ⟨[], by rw [htext, hstem, List.append_nil], by simp⟩
  · exact ⟨['/'], by rw [htext, hstem], by simp⟩

/-- A path that is joined to another goes on after it. -/
theorem exists_div_text (hq : q.isRelative = true) : ∃ rest, (p / q).text = p.text ++ rest := by
  obtain ⟨cs, hcs, -⟩ := exists_stemChars p
  refine ⟨String.ofList cs ++ q.text, ?_⟩
  rw [div_text hq, hcs, String.ofList_append, String.ofList_toList, String.append_assoc]

theorem isAbsolute_div (hp : p.text ≠ "") (hq : q.isRelative = true) :
    (p / q).isAbsolute = p.isAbsolute := by
  obtain ⟨rest, htext⟩ := exists_div_text hq
  exact isAbsolute_of_front hp htext

/-- A path that is joined to another is followed over the names of both, if its text may be followed at
    all. -/
theorem resolve_div (hp : p.text ≠ "") (hq : q.isRelative = true) (hne : q.text ≠ "")
    (hnul : '\x00' ∉ (p / q).text.toList) (hroom : (p / q).text.utf8ByteSize < pathLimit)
    (d : Disk) (final : Final) : d.resolve final (p / q) =
      (d.walk final maxLinks (if p.isAbsolute then [] else d.working) (endsInSlash q.text)
        (segments p.text ++ segments q.text)).mapError .system := by
  have hsome : ¬ (p / q).text.isEmpty = true := by
    rw [div_text hq]
    simp [hne]
  rw [resolve, if_neg (by simpa using hnul), if_neg hsome, if_neg (Nat.not_le.mpr hroom),
    segments_div hp hq, endsInSlash_div hq hne, isAbsolute_div hp hq]

/-- A plain relative path is walked from the working directory. -/
theorem resolve_relative (d : Disk) (final : Final) (names : List String)
    (hp : p.text.toList.contains '\x00' = false ∧ p.text.isEmpty = false ∧
      p.text.utf8ByteSize < pathLimit ∧ p.isAbsolute = false ∧ endsInSlash p.text = false ∧
      segments p.text = names) :
    d.resolve final p = (d.walk final maxLinks d.working false names).mapError .system := by
  obtain ⟨hnul, hempty, hlen, hroot, hslash, rfl⟩ := hp
  unfold resolve
  rw [if_neg (by simpa using hnul), if_neg (by simpa using hempty), if_neg (by simpa using hlen),
    if_neg (by simp [hroot]), hslash]

/-- A path with a name has names to be followed. -/
theorem segments_ne_nil (hq : q.isRelative = true) (hne : q.text ≠ "") : segments q.text ≠ [] := by
  obtain ⟨c, cs, hcs⟩ := List.exists_cons_of_ne_nil (mt String.toList_eq_nil_iff.mp hne)
  have hc : c ≠ '/' := fun h => Path.isRelative_iff.mp hq cs (by rw [hcs, h])
  obtain ⟨s, segs, hs⟩ := List.exists_cons_of_ne_nil (Text.pieces_ne_nil '/' cs)
  unfold segments
  rw [hcs, pieces, hs]
  simp [hc]

/-! ## Directories that are entered -/

theorem enter_eq_ok_iff {d : Disk} {l : Location} : d.enter (some p) = .ok l ↔ DirAt d p l := by
  unfold enter DirAt
  cases hr : d.resolve .follow p with
  | error e => simp [hr]
  | ok r =>
    cases hn : r.node with
    | none => simp [hr, hn]
    | some n => cases n <;> simp [hr, hn]

theorem walk_working (d : Disk) (working : Location) (final : Final) (links : Nat) (cur : Location)
    (slash : Bool) (names : List String) : { d with working }.walk final links cur slash names =
      d.walk final links cur slash names := by
  have hsame (l : Location) : ({ d with working } : Disk).find? l = d.find? l := rfl
  exact walk_congr hsame final links cur slash names

/-- Where an absolute path leads does not hang on the working directory. -/
theorem resolve_working (hp : p.isAbsolute = true) (d : Disk) (working : Location) (final : Final) :
    { d with working }.resolve final p = d.resolve final p := by
  rcases resolve_cases p with ⟨e, -, -, he⟩ | hwalk
  · rw [he, he]
  · rw [hwalk, hwalk, if_pos hp, if_pos hp, walk_working]

/-- A path that is too long is refused on every disk. -/
theorem exists_refusal_of_long (h : pathLimit ≤ p.text.utf8ByteSize) :
    ∃ e, ∀ (final : Final) (d : Disk), d.resolve final p = .error e := by
  by_cases hnul : p.text.toList.contains '\x00' = true
  · exact ⟨_, fun _ _ => if_pos hnul⟩
  by_cases hempty : p.text.isEmpty = true
  · exact ⟨.system .noEntry, fun _ _ => by rw [resolve, if_neg hnul, if_pos hempty]⟩
  · exact ⟨.system .nameTooLong, fun _ _ => by rw [resolve, if_neg hnul, if_neg hempty, if_pos h]⟩

/-- Walks that differ in the links that are left come to the same, as far as they come. -/
theorem asFar_walk (d : Disk) (final : Final) (links links' : Nat) (cur : Location) (slash : Bool)
    (names : List String) : AsFar ((d.walk final links cur slash names).mapError .system)
      ((d.walk final links' cur slash names).mapError .system) := by
  rcases Nat.le_total links links' with hle | hle
  · obtain ⟨more, rfl⟩ := Nat.exists_eq_add_of_le hle
    rcases walk_links d final links more cur slash names with hloop | hsame
    · exact .inr (.inl (by rw [hloop]; rfl))
    · exact .inl (by rw [hsame])
  · obtain ⟨more, rfl⟩ := Nat.exists_eq_add_of_le hle
    rcases walk_links d final links' more cur slash names with hloop | hsame
    · exact .inr (.inr (by rw [hloop]; rfl))
    · exact .inl (by rw [hsame])

/-- A path that leads to a directory on some disk is followed on every disk. -/
theorem DirAt.resolve_eq {d : Disk} {l : Location} (h : DirAt d p l) (d' : Disk) (final : Final) :
    d'.resolve final p = (d'.walk final maxLinks (if p.isAbsolute then [] else d'.working)
      (endsInSlash p.text) (segments p.text)).mapError .system := by
  obtain ⟨r, hr, -, -⟩ := h
  rcases resolve_cases p with ⟨e, -, -, he⟩ | hwalk
  · rw [he] at hr
    cases hr
  · exact hwalk final d'

/-- Names behind a path to a directory are followed from that directory. -/
theorem DirAt.exists_links {d : Disk} {l : Location} (h : DirAt d p l) :
    ∃ links, ∀ final slash rest, rest ≠ [] →
      d.walk final maxLinks (if p.isAbsolute then [] else d.working) slash (segments p.text ++ rest) =
        d.walk final links l slash rest := by
  have hwalk := h.resolve_eq d .follow
  obtain ⟨r, hr, rfl, hdir⟩ := h
  rw [hwalk, mapError_eq_ok] at hr
  exact walk_append hr hdir

theorem DirAt.text_ne {d : Disk} {l : Location} (h : DirAt d p l) : p.text ≠ "" := by
  obtain ⟨r, hr, -, -⟩ := h
  intro hempty
  unfold resolve at hr
  rw [hempty, if_neg (by decide), if_pos (by decide)] at hr
  cases hr

theorem DirAt.nul_notMem {d : Disk} {l : Location} (h : DirAt d p l) : '\x00' ∉ p.text.toList := by
  obtain ⟨r, hr, -, -⟩ := h
  intro hnul
  rw [resolve, if_pos (by simpa using hnul)] at hr
  cases hr

/-- A relative path of dots leads nowhere else. -/
theorem DirAt.eq_working_of_dots {d : Disk} {l : Location} (h : DirAt d p l)
    (hp : p.isAbsolute = false) (hdots : ∀ name ∈ segments p.text, name = ".") : l = d.working := by
  have hwalk := h.resolve_eq d .follow
  rw [walk_dots hdots, if_neg (by simp [hp])] at hwalk
  obtain ⟨r, hr, rfl, -⟩ := h
  cases hr.symm.trans hwalk
  rfl

/-- A relative path with a slash has another character before it. -/
theorem size_dot_le (hq : q.isRelative = true) (hslash : '/' ∈ q.text.toList) :
    (p / .dotSlash).text.utf8ByteSize ≤ (p / q).text.utf8ByteSize := by
  obtain ⟨front, rest, hchars⟩ := List.append_of_mem hslash
  have hfront : front ≠ [] := fun hnil => Path.isRelative_iff.mp hq rest (by rw [hchars, hnil]; rfl)
  have htext : q.text = String.ofList front ++ "/" ++ String.ofList rest := by
    apply String.toList_injective
    simp [hchars]
  have hsize : (String.ofList front).utf8ByteSize ≠ 0 := by
    rw [ne_eq, String.utf8ByteSize_eq_zero_iff, ← String.toList_inj]
    simpa using hfront
  have hdot : Path.dotSlash.text.utf8ByteSize = 2 := by decide
  have hone : ("/" : String).utf8ByteSize = 1 := by decide
  rw [div_text (q := .dotSlash) (by decide), div_text hq, htext, String.utf8ByteSize_append,
    String.utf8ByteSize_append, String.utf8ByteSize_append, String.utf8ByteSize_append, hdot, hone]
  omega

/-- A path that leads back to the directory it is seen from, as far as links may be followed, or that has
    no room behind it for the path of a program. -/
def Returns (d : Disk) (p : Path) (l : Location) : Prop :=
  AsFar ({ d with working := l }.enter (some p)) (.ok l) ∨
    pathLimit ≤ (p / .dotSlash).text.utf8ByteSize

/-- What cannot be entered for too many links cannot be followed for them. -/
theorem walk_of_enter_loop {d : Disk} (h : d.enter (some p) = .error (.system .loop)) :
    d.walk .follow maxLinks (if p.isAbsolute then [] else d.working) (endsInSlash p.text)
      (segments p.text) = .error .loop := by
  have hr : d.resolve .follow p = .error (.system .loop) := by
    unfold enter at h
    cases hr : d.resolve .follow p with
    | error e => simpa [hr] using h
    | ok r =>
      cases hn : r.node with
      | none => simp [hr, hn] at h
      | some n => cases n <;> simp [hr, hn] at h
  unfold resolve at hr
  split at hr
  · simp [nulInName] at hr
  split at hr
  · cases hr
  split at hr
  · cases hr
  cases hw : d.walk .follow maxLinks (if p.isAbsolute then [] else d.working) (endsInSlash p.text)
      (segments p.text) with
  | ok r => rw [hw] at hr; cases hr
  | error e => rw [hw] at hr; cases hr; rfl

variable {d : Disk} {l : Location}

/-- A path behind a directory leads from that directory where it leads from outside, if the path of the
    directory leads back. -/
theorem Returns.asFar (h : Returns d p l) (hl : DirAt d p l)
    (hq : q.isRelative = true) (hslash : '/' ∈ q.text.toList) :
    AsFar ({ d with working := l }.resolve .follow (p / q)) (d.resolve .follow (p / q)) := by
  have hne : q.text ≠ "" := by
    intro hempty
    rw [hempty] at hslash
    cases hslash
  have hrest := segments_ne_nil hq hne
  -- A text that may not be followed is refused everywhere.
  by_cases hroom : pathLimit ≤ (p / q).text.utf8ByteSize
  · obtain ⟨e, he⟩ := exists_refusal_of_long hroom
    exact .inl (by rw [he, he])
  by_cases hnul : '\x00' ∈ (p / q).text.toList
  · exact .inl (by rw [resolve, resolve, if_pos (by simpa using hnul), if_pos (by simpa using hnul)])
  have hresolve := resolve_div hl.text_ne hq hne hnul (Nat.not_le.mp hroom)
  obtain ⟨links, hlinks⟩ := hl.exists_links
  rw [hresolve, hresolve, hlinks _ _ _ hrest]
  rcases h with (hback | hloop | hok) | hlong
  · -- Both walks come to the directory, and go on from there with the links that are left.
    obtain ⟨links', hlinks'⟩ := (enter_eq_ok_iff.mp hback).exists_links
    rw [hlinks' _ _ _ hrest, walk_working]
    exact asFar_walk d .follow links' links l _ _
  · refine .inr (.inl ?_)
    rw [walk_append_error (walk_of_enter_loop hloop) hrest]
    rfl
  · cases hok
  · exact absurd (hlong.trans (size_dot_le hq hslash)) hroom

/-- If the directory itself is found behind its path from there, its path leads back. -/
theorem returns_of_asFar (hl : DirAt d p l)
    (h : AsFar ({ d with working := l }.resolve .follow (p / Path.dotSlash))
      (d.resolve .follow (p / Path.dotSlash))) : Returns d p l := by
  by_cases hroom : pathLimit ≤ (p / .dotSlash).text.utf8ByteSize
  · exact .inr hroom
  refine .inl ?_
  have hq : Path.dotSlash.isRelative = true := by decide
  have hnul : '\x00' ∉ (p / .dotSlash).text.toList := by
    obtain ⟨cs, hcs, hnocs⟩ := exists_stemChars p
    rw [Path.div_chars hq, hcs, List.mem_append, List.mem_append]
    rintro ((hmem | hmem) | hmem)
    · exact hl.nul_notMem hmem
    · exact absurd (hnocs _ hmem) (by decide)
    · exact absurd hmem (by decide)
  have hresolve := resolve_div hl.text_ne hq (by decide) hnul (Nat.not_le.mp hroom)
  have hdot : segments Path.dotSlash.text = ["."] := by decide
  have hrest : ["."] ≠ [] := List.cons_ne_nil _ _
  have hdots (d : Disk) (links : Nat) (cur : Location) (slash : Bool) :
      d.walk .follow links cur slash ["."] = .ok ⟨cur, some .dir, slash, true⟩ :=
    walk_dots (List.forall_mem_singleton.mpr rfl) .follow links cur slash
  obtain ⟨links, hlinks⟩ := hl.exists_links
  rw [hresolve, hresolve, hdot, hlinks _ _ _ hrest, hdots] at h
  have hchild := hl.resolve_eq { d with working := l } .follow
  cases hw : ({ d with working := l } : Disk).walk .follow maxLinks
      (if p.isAbsolute then [] else l) (endsInSlash p.text) (segments p.text) with
  | error e =>
    -- A failure on the way to the directory is one of the path behind it.
    rw [walk_append_error hw hrest] at h
    rw [hw] at hchild
    rcases h with hok | hloop | hok
    · cases hok
    · cases hloop
      exact .inr (.inl (by rw [enter, hchild]; rfl))
    · cases hok
  | ok r =>
    rw [hw] at hchild
    by_cases hnode : r.node = some .dir
    · have hback : DirAt { d with working := l } p r.location := ⟨r, hchild, rfl, hnode⟩
      obtain ⟨links', hlinks'⟩ := hback.exists_links
      rw [hlinks' _ _ _ hrest, hdots] at h
      rcases h with hsame | hloop | hloop
      · refine .inl (enter_eq_ok_iff.mpr ?_)
        cases hsame
        exact hback
      · cases hloop
      · cases hloop
    · rcases walk_append_stops hw hnode hrest .follow (endsInSlash Path.dotSlash.text) with hstop | hstop
      all_goals
        rw [hstop] at h
        rcases h with h | h | h <;> cases h

end Disk

end GameInstaller
