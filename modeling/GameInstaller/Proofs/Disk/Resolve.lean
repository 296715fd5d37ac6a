import GameInstaller.Disk.Resolve
import GameInstaller.Proofs.Actions
import GameInstaller.Proofs.Disk.Entries

/-!
# Where paths lead

What a path leads to is what lies at its location, it depends on the outline of the disk only, and
it is gone when the entry there is taken away.
-/

namespace GameInstaller.Disk

variable (d : Disk) (final : Final)

/-! ## Walks -/

/-- What a walk does at what it finds under a name. -/
def walkAt (links : Nat) (cur : Location) (slash : Bool) (name : String) (rest : List String) :
    Option Node → Except Errno Resolved
  | none => if rest.isEmpty then .ok ⟨cur ++ [name], none, slash, false⟩ else .error .noEntry
  | some .dir =>
    if rest.isEmpty then .ok ⟨cur ++ [name], some .dir, slash, false⟩
    else walk d final links (cur ++ [name]) slash rest
  | some (.file content mode shared) =>
    if rest.isEmpty && (!slash || final = .entry) then
      .ok ⟨cur ++ [name], some (.file content mode shared), slash, false⟩
    else .error .notDirectory
  | some (.link target) =>
    if rest.isEmpty && (final = .entry || (final = .keep && !slash)) then
      .ok ⟨cur ++ [name], some (.link target), slash, false⟩
    else match links with
      | 0 => .error .loop
      | links + 1 =>
        walk d final links (if startsInSlash target then [] else cur)
          (slash || (rest.isEmpty && endsInSlash target)) (segments target ++ rest)

theorem walk_cons {name : String} (hdot : name ≠ ".") (hup : name ≠ "..")
    (hlen : ¬ maxName < name.utf8ByteSize) (links : Nat) (cur : Location) (slash : Bool)
    (rest : List String) :
    walk d final links cur slash (name :: rest) =
      walkAt d final links cur slash name rest (d.find? (cur ++ [name])) := by
  rw [walk, if_neg hdot, if_neg hup, if_neg hlen]
  unfold walkAt
  rfl

/-- Following a path fails in a few ways only. -/
theorem walk_error {links : Nat} {cur : Location} {slash : Bool} {names : List String} {e : Errno}
    (h : walk d final links cur slash names = .error e) :
    e = .nameTooLong ∨ e = .noEntry ∨ e = .notDirectory ∨ e = .loop := by
  fun_induction walk d final links cur slash names <;> simp_all

/-- No name that is walked is too long. -/
theorem walk_names {links : Nat} {cur : Location} {slash : Bool} {names : List String} {r : Resolved}
    (h : walk d final links cur slash names = .ok r) :
    ∀ name ∈ names, name.utf8ByteSize ≤ maxName := by
  fun_induction walk d final links cur slash names with
  | case1 => simp
  | case2 _ _ _ _ ih | case3 _ _ _ _ _ ih =>
    exact List.forall_mem_cons.mpr ⟨by decide, ih h⟩
  | case4 | case6 | case10 | case12 => cases h
  | case5 _ _ _ _ _ _ _ hlen _ _ hrest | case7 _ _ _ _ _ _ _ hlen _ _ hrest =>
    simp [List.isEmpty_iff.mp hrest, Nat.not_lt.mp hlen]
  | case9 _ _ _ _ _ _ _ hlen _ _ _ _ _ hrest | case11 _ _ _ _ _ _ _ hlen _ _ _ hrest =>
    simp_all
  | case8 _ _ _ _ _ _ _ hlen _ _ _ ih =>
    exact List.forall_mem_cons.mpr ⟨Nat.not_lt.mp hlen, ih h⟩
  | case13 _ _ _ _ _ _ hlen _ _ _ _ _ ih =>
    -- The rest of the path is walked after the names of the link's target.
    exact List.forall_mem_cons.mpr
      ⟨Nat.not_lt.mp hlen, fun name hname => ih h name (List.mem_append_right _ hname)⟩

/-- What a walk leads to is what lies there, unless it ends in dots. -/
theorem walk_node {links : Nat} {cur : Location} {slash : Bool} {names : List String} {r : Resolved}
    (h : walk d final links cur slash names = .ok r) :
    (r.dots = true ∧ r.node = some .dir) ∨
      (r.dots = false ∧ r.location ≠ [] ∧ r.node = d.find? r.location) := by
  fun_induction walk d final links cur slash names with
  | case1 =>
    cases h
    exact .inl ⟨rfl, rfl⟩
  | case5 _ _ _ _ _ _ _ _ here hhere | case7 _ _ _ _ _ _ _ _ here hhere
  | case9 _ _ _ _ _ _ _ _ here _ _ _ hhere | case11 _ _ _ _ _ _ _ _ here _ hhere =>
    cases h
    exact .inr ⟨rfl, by simp [here], hhere.symm⟩
  | case4 | case6 | case10 | case12 => cases h
  | case2 _ _ _ _ ih | case3 _ _ _ _ _ ih | case8 _ _ _ _ _ _ _ _ _ _ _ ih
  | case13 _ _ _ _ _ _ _ _ _ _ _ _ ih => exact ih h

/-- Where a path leads, without content. -/
def Resolved.outline (r : Resolved) : Resolved := { r with node := r.node.map Node.outline }

/-- Walks depend on the outline only. -/
theorem walk_outline (links : Nat) (cur : Location) (slash : Bool) (names : List String) :
    walk d.outline final links cur slash names =
      (walk d final links cur slash names).map Resolved.outline := by
  fun_induction walk d final links cur slash names with
  | case1 =>
    rw [walk]
    rfl
  | case2 _ _ _ _ ih | case3 _ _ _ _ _ ih =>
    rw [walk]
    simpa using ih
  | case4 _ _ _ _ _ hdot hup hlen =>
    rw [walk, if_neg hdot, if_neg hup, if_pos hlen]
    rfl
  | case5 _ _ _ _ _ hdot hup hlen here hhere hrest
  | case6 _ _ _ _ _ hdot hup hlen here hhere hrest
  | case7 _ _ _ _ _ hdot hup hlen here hhere hrest =>
    rw [walk_cons _ _ hdot hup hlen, find?_outline, hhere]
    simp [walkAt, hrest, Node.outline, Except.map, Resolved.outline, here]
  | case8 _ _ _ _ _ hdot hup hlen here hhere hrest ih =>
    rw [walk_cons _ _ hdot hup hlen, find?_outline, hhere]
    simpa [walkAt, hrest, Node.outline] using ih
  | case9 _ _ _ _ _ hdot hup hlen here content mode shared hhere hrest
  | case10 _ _ _ _ _ hdot hup hlen here content mode shared hhere hrest =>
    rw [walk_cons _ _ hdot hup hlen, find?_outline, hhere]
    simp only [Option.map_some, Node.outline, walkAt, hrest]
    rfl
  | case11 _ _ _ _ _ hdot hup hlen here target hhere hrest =>
    rw [walk_cons _ _ hdot hup hlen, find?_outline, hhere]
    simp only [Option.map_some, Node.outline, walkAt, hrest]
    rfl
  | case12 _ _ _ _ hdot hup hlen here target hhere hrest =>
    rw [walk_cons _ _ hdot hup hlen, find?_outline, hhere]
    simp only [Option.map_some, Node.outline, walkAt, hrest]
    rfl
  | case13 _ _ _ _ hdot hup hlen here target hhere hrest links ih =>
    rw [walk_cons _ _ hdot hup hlen, find?_outline, hhere]
    simp only [Option.map_some, Node.outline, walkAt, hrest]
    exact ih

/-- When the entry that a walk led to is taken away, the walk leads to nothing. -/
theorem walk_erase {links : Nat} {cur : Location} {slash : Bool} {names : List String}
    {r r' : Resolved} (h : walk d final links cur slash names = .ok r) (hr : r.dots = false)
    (h' : walk (d.erase r.location) final links cur slash names = .ok r') : r'.node = none := by
  have hfind (cur : Location) (name : String) : (d.erase r.location).find? (cur ++ [name]) =
      if cur ++ [name] = r.location then none else d.find? (cur ++ [name]) := by
    rw [find?_erase, if_neg (by simp)]
  -- Where the walk comes by the entry it now finds nothing, and ends.
  have hstep {links cur slash name rest node}
      (hw : walkAt (d.erase r.location) final links cur slash name rest
        (if cur ++ [name] = r.location then none else node) = .ok r') :
      r'.node = none ∨ cur ++ [name] ≠ r.location ∧
        walkAt (d.erase r.location) final links cur slash name rest node = .ok r' := by
    by_cases hl : cur ++ [name] = r.location
    · rw [if_pos hl, walkAt] at hw
      split at hw
      · cases hw
        exact .inl rfl
      · cases hw
    · exact .inr ⟨hl, by rwa [if_neg hl] at hw⟩
  fun_induction walk d final links cur slash names with
  | case1 =>
    cases h
    cases hr
  | case2 _ _ _ _ ih | case3 _ _ _ _ _ ih =>
    rw [walk] at h'
    exact ih h (by simpa using h')
  | case4 | case6 | case10 | case12 => cases h
  | case5 _ _ _ _ _ hdot hup hlen | case7 _ _ _ _ _ hdot hup hlen
  | case9 _ _ _ _ _ hdot hup hlen | case11 _ _ _ _ _ hdot hup hlen =>
    rw [walk_cons _ _ hdot hup hlen, hfind] at h'
    cases h
    rcases hstep h' with hnone | ⟨hl, -⟩
    · exact hnone
    · exact absurd rfl hl
  | case8 _ _ _ _ _ hdot hup hlen here hhere hrest ih =>
    rw [walk_cons _ _ hdot hup hlen, hfind, hhere] at h'
    rcases hstep h' with hnone | ⟨-, hw⟩
    · exact hnone
    · simp only [walkAt, hrest] at hw
      exact ih h hw
  | case13 _ _ _ _ hdot hup hlen here target hhere hrest links ih =>
    rw [walk_cons _ _ hdot hup hlen, hfind, hhere] at h'
    rcases hstep h' with hnone | ⟨-, hw⟩
    · exact hnone
    · simp only [walkAt, hrest] at hw
      exact ih h hw

/-! ## Paths -/

/-- A path is refused for its text, or walked. -/
theorem resolve_cases (p : Path) :
    (∃ e : IoError, e.kind ≠ .alreadyExists ∧ e.kind ≠ .crossesDevices ∧
      ∀ (final : Final) (d : Disk), d.resolve final p = .error e) ∨
    ∀ (final : Final) (d : Disk), d.resolve final p =
      (d.walk final maxLinks (if p.isAbsolute then [] else d.working) (endsInSlash p.text)
        (segments p.text)).mapError .system := by
  unfold resolve
  by_cases hnul : p.text.toList.contains '\x00' = true
  · exact .inl ⟨_, by decide, by decide, fun _ _ => if_pos hnul⟩
  by_cases hempty : p.text.isEmpty = true
  · exact .inl ⟨.system .noEntry, by decide, by decide, fun _ _ => by rw [if_neg hnul, if_pos hempty]⟩
  by_cases hlong : pathLimit ≤ p.text.utf8ByteSize
  · exact .inl ⟨.system .nameTooLong, by decide, by decide, fun _ _ => by
      rw [if_neg hnul, if_neg hempty, if_pos hlong]⟩
  · exact .inr fun _ _ => by rw [if_neg hnul, if_neg hempty, if_neg hlong]

/-- A path that leads somewhere has no name that is too long. -/
theorem resolve_names {p : Path} {r : Resolved} (h : d.resolve final p = .ok r) :
    ∀ name ∈ segments p.text, name.utf8ByteSize ≤ maxName := by
  rcases resolve_cases p with ⟨e, -, -, he⟩ | hwalk
  · rw [he] at h
    cases h
  · rw [hwalk, mapError_eq_ok] at h
    exact walk_names d final h

/-- A plain absolute path is walked from the root. -/
theorem resolve_absolute {p : Path} (names : List String)
    (hp : p.text.toList.contains '\x00' = false ∧ p.text.isEmpty = false ∧
      p.text.utf8ByteSize < pathLimit ∧ p.isAbsolute = true ∧ endsInSlash p.text = false ∧
      segments p.text = names) :
    d.resolve final p = (d.walk final maxLinks [] false names).mapError .system := by
  obtain ⟨hnul, hempty, hlen, hroot, hslash, rfl⟩ := hp
  unfold resolve
  rw [if_neg (by simpa using hnul), if_neg (by simpa using hempty), if_neg (by simpa using hlen),
    if_pos hroot, hslash]

/-- A path is refused or leads nowhere; it is never in the way of anything. -/
theorem resolve_error {p : Path} {e : IoError} (h : d.resolve final p = .error e) :
    e.kind ≠ .alreadyExists ∧ e.kind ≠ .crossesDevices := by
  -- A path that is not refused for its text fails on the walk, in one of four ways.
  rcases resolve_cases p with ⟨e', hexists, hdevice, he⟩ | hwalk
  · rw [he] at h
    cases h
    exact ⟨hexists, hdevice⟩
  · rw [hwalk] at h
    cases hw : d.walk final maxLinks (if p.isAbsolute then [] else d.working) (endsInSlash p.text)
        (segments p.text) with
    | ok r =>
      rw [hw] at h
      cases h
    | error errno =>
      rw [hw] at h
      cases h
      rcases walk_error d final hw with rfl | rfl | rfl | rfl <;> decide

/-- What a path leads to is what lies there, unless the path ends in dots. -/
theorem resolve_node {p : Path} {r : Resolved} (h : d.resolve final p = .ok r) :
    (r.dots = true ∧ r.node = some .dir) ∨
      (r.dots = false ∧ r.location ≠ [] ∧ r.node = d.find? r.location) := by
  rcases resolve_cases p with ⟨e, -, -, he⟩ | hwalk
  · rw [he] at h
    cases h
  · rw [hwalk, mapError_eq_ok] at h
    exact walk_node d final h

/-- What a path leads to lies there, if it is no directory. -/
theorem resolve_entry {p : Path} {r : Resolved} (h : d.resolve final p = .ok r)
    (hr : r.node ≠ some .dir) :
    r.dots = false ∧ r.location ≠ [] ∧ d.find? r.location = r.node := by
  rcases resolve_node d final h with ⟨-, hdir⟩ | ⟨hdots, hl, hfind⟩
  · exact absurd hdir hr
  · exact ⟨hdots, hl, hfind.symm⟩

/-- Where paths lead depends on the outline only. -/
theorem resolve_outline (p : Path) :
    d.outline.resolve final p = (d.resolve final p).map Resolved.outline := by
  rcases resolve_cases p with ⟨e, -, -, he⟩ | hwalk
  · rw [he, he]
    rfl
  · rw [hwalk, hwalk, walk_outline, outline_working]
    cases d.walk final maxLinks (if p.isAbsolute then [] else d.working) (endsInSlash p.text)
      (segments p.text) <;> rfl

/-- When the entry that a path led to is taken away, the path leads to nothing. -/
theorem resolve_erase {p : Path} {r r' : Resolved} (h : d.resolve final p = .ok r)
    (hr : r.dots = false) (h' : (d.erase r.location).resolve final p = .ok r') : r'.node = none := by
  rcases resolve_cases p with ⟨e, -, -, he⟩ | hwalk
  · rw [he] at h
    cases h
  · rw [hwalk, mapError_eq_ok] at h h'
    exact walk_erase d final h hr h'

/-- Disks with the same outline have the same directories. -/
theorem isDir_outline (p : Path) : d.outline.isDir p = d.isDir p := by
  unfold isDir stat
  rw [resolve_outline]
  cases d.resolve .follow p with
  | error e => rfl
  | ok r =>
    simp only [Except.map, Resolved.outline]
    cases r.node with
    | none => rfl
    | some n => simp

end GameInstaller.Disk
