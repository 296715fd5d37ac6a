import GameInstaller.Install.Machine

/-! # Rehearsals

An install can be rehearsed on a machine whose filesystem, runner and config store are stand-ins:
they keep what they are given in memory, log what is asked of them, and fail where they are told to.

* `Memory.files`     a filesystem of remembered paths
* `StandIn.runner`   a runner that is installed by saying so
* `Rehearsal.host`   what a rehearsed install acts through -/

namespace GameInstaller

open Disk (ByteStream Fault)

/-! ## The filesystem -/

/-- What is planned for a call of the filesystem. -/
inductive Mishap where
  | notFound
  | permissionDenied
  | alreadyExists
  | unsupported
  /-- A failure of the system. -/
  | io
  /-- The file is opened, but reading it fails after one byte. -/
  | reading
  deriving DecidableEq, Repr

/-- Paths that are remembered, those of files with their contents, and the calls so far. -/
structure Memory where
  entries : List (Path × Option ByteArray)
  /-- The calls, in order. -/
  calls : List String
  /-- What goes wrong, by the number of the call. -/
  mishaps : List (Nat × Mishap)
  /-- The call at which the install is called off. -/
  cancelAt : Option Nat
  cancelled : Bool

namespace Memory

/-- The text of components. -/
def textOf : List Component → List Char
  | [] => []
  | .root :: r => '/' :: textOf r
  | [c] => name c
  | c :: r => name c ++ '/' :: textOf r
where
  /-- The text of a component. -/
  name : Component → List Char
    | .root => ['/']
    | .here => ['.']
    | .up => ['.', '.']
    | .normal n => n

/-- A path written by its components. -/
def normal (p : Path) : Path := ⟨String.ofList (textOf p.components)⟩

/-- What is at a path. -/
def find? (m : Memory) (p : Path) : Option (Option ByteArray) :=
  (m.entries.find? fun (q, _) => q = normal p).map (·.2)

/-- Put something at a path. -/
def put (m : Memory) (p : Path) (content : Option ByteArray) : Memory :=
  { m with entries := (m.entries.filter fun (q, _) => q ≠ normal p) ++ [(normal p, content)] }

/-- Take away what is at a path. -/
def erase (m : Memory) (p : Path) : Memory :=
  { m with entries := m.entries.filter fun (q, _) => q ≠ normal p }

/-- A mishap as the failure of a call whose first path is `p`. -/
def Mishap.fault (p : Path) : Mishap → Fault
  | .notFound => .notFound p
  | .permissionDenied => .permissionDenied p
  | .alreadyExists => .alreadyExists p
  | .unsupported => .unsupported p
  | .io | .reading => .ofIo p (.custom .other "injected")

/-- Log a call, and give what goes wrong with it. -/
def enter (text : String) : StateM Memory (Option Mishap) := do
  let m ← get
  let number := m.calls.length
  set { m with calls := m.calls ++ [text], cancelled := m.cancelled || m.cancelAt = some number }
  pure ((m.mishaps.find? fun (n, _) => n = number).map (·.2))

/-- A call that is logged before it is made, unless something goes wrong with it. -/
def logged {α : Type} (text : String) (p : Path) (act : Memory → Except Fault (α × Memory)) :
    StateM Memory (Except Fault α) := do
  match ← enter text with
  | some mishap => pure (.error (Mishap.fault p mishap))
  | none =>
    match act (← get) with
    | .ok (a, m) =>
      set m
      pure (.ok a)
    | .error e => pure (.error e)

/-- What a file yields that cannot be read. -/
def brokenStream : ByteStream :=
  ⟨["x".toUTF8], some (.ofKind .permissionDenied)⟩

/-- The filesystem of remembered paths. -/
def files : Files Memory where
  movePath src dst :=
    logged ("move " ++ src.text ++ " -> " ++ dst.text) src fun m =>
      match m.find? src with
      | none => .error (.notFound src)
      | some content =>
        if (m.find? dst).isSome then .error (.alreadyExists dst)
        else .ok ((), (m.erase src).put dst content)
  copyTree src dst :=
    logged ("copy " ++ src.text ++ " -> " ++ dst.text) src fun m =>
      match m.find? src with
      | none => .error (.notFound src)
      | some content => .ok ((), m.put dst content)
  createDir p :=
    logged ("mkdir " ++ p.text) p fun m =>
      if (m.find? p).isSome then .error (.alreadyExists p) else .ok ((), m.put p none)
  extract archive dst format :=
    logged ("extract " ++ archive.text ++ " -> " ++ dst.text ++ " (" ++ format.name ++ ")")
      archive fun m =>
        if (m.find? archive).isNone then .error (.notFound archive)
        else if (m.find? dst).isSome then .ok ((), m)
        else .ok ((), m.put dst none)
  openFile p := do
    let before ← get
    match ← enter ("open " ++ p.text) with
    | some .reading =>
      modify fun m => { m with cancelled := before.cancelled }
      pure (.ok brokenStream)
    | some mishap => pure (.error (Mishap.fault p mishap))
    | none =>
      match (← get).find? p with
      | some (some content) => pure (.ok ⟨[content], none⟩)
      | _ => pure (.error (.notFound p))

/-- The place of a component among others. -/
def rank : Component → Nat × String
  | .root => (0, "")
  | .here => (1, "")
  | .up => (2, "")
  | .normal n => (3, String.ofList n)

/-- Whether components come before others, or are the same. -/
def inOrder : List Component → List Component → Bool
  | [], _ => true
  | _ :: _, [] => false
  | a :: r, b :: s =>
    let (i, x) := rank a
    let (j, y) := rank b
    if i = j && x = y then inOrder r s else i < j || (i = j && x < y)

/-- The remembered paths, in order. -/
def paths (m : Memory) : List Path :=
  (m.entries.map (·.1)).mergeSort fun p q => inOrder p.components q.components

end Memory

/-! ## The runner -/

/-- How installing a stand-in fails. -/
inductive InstallTrouble where
  | noPackage
  | unsupported
  | spawn
  | exit (code : String) (complaint : String)
  deriving DecidableEq, Repr

/-- A runner that is there once it was told to be. -/
structure StandIn where
  name : String
  installed : Bool
  trouble : Option InstallTrouble
  deriving DecidableEq, Repr

/-- The failure of an install. -/
def StandIn.failure (s : StandIn) : InstallTrouble → RunnerError
  | .noPackage => .noPackage s.name
  | .unsupported => .unsupportedDistribution s.name
  | .spawn => .spawn s.name (.ofKind .notFound)
  | .exit code complaint => .installFailed s.name code complaint

/-- Stand-ins for a runner and for what it needs first, and the installs that were asked for. -/
structure Troupe where
  main : StandIn
  dependency : Option StandIn
  installs : List String

namespace Troupe

/-- Install a stand-in: what comes of it, and the stand-in after that. -/
def tryInstall (s : StandIn) : Except RunnerError Unit × StandIn :=
  match s.trouble with
  | some t => (.error (s.failure t), s)
  | none => (.ok (), { s with installed := true })

/-- The stand-in for the runner, as a runner. -/
def mainRunner (name : String) : Runner Troupe where
  name := name
  isInstalled := do pure (← get).main.installed
  install := do
    let t ← get
    let (r, main) := tryInstall t.main
    set { t with main, installs := t.installs ++ [t.main.name] }
    pure r

/-- The stand-in for what the runner needs, as a runner. -/
def neededRunner (name : String) : Runner Troupe where
  name := name
  isInstalled := do pure ((← get).dependency.all (·.installed))
  install := do
    let t ← get
    match t.dependency with
    | none => pure (.ok ())
    | some s =>
      let (r, s) := tryInstall s
      set { t with dependency := some s, installs := t.installs ++ [s.name] }
      pure r

end Troupe

/-! ## The rehearsal -/

/-- What a rehearsed install acts on. -/
structure Rehearsal where
  machine : Machine
  memory : Memory
  troupe : Troupe
  /-- The entries that were saved, in order. -/
  writes : List (String × GameEntry)

/-- Which filesystem a rehearsal uses. -/
inductive FilesChoice where
  | remembered
  | disk
  deriving DecidableEq, Repr

/-- Which config store a rehearsal uses. -/
inductive StoreChoice where
  | remembered
  /-- Every entry is refused. -/
  | refusing
  | at (root : Path)
  deriving DecidableEq, Repr

/-- Which runner a rehearsal uses. -/
inductive RunnerChoice where
  | standIn (name : String) (needed : Option String)
  | system (r : SystemRunner)
  deriving DecidableEq, Repr

namespace Rehearsal

/-- An action on the machine. -/
def onMachine {α : Type} (x : StateM Machine α) : StateM Rehearsal α :=
  onPart (·.machine) (fun machine r => { r with machine }) x

/-- The chosen filesystem. -/
def files : FilesChoice → Files Rehearsal
  | .remembered => Memory.files.onPart (·.memory) fun memory r => { r with memory }
  | .disk => Machine.files.onPart (·.machine) fun machine r => { r with machine }

/-- Save an entry in the chosen store. -/
def saveEntry : StoreChoice → String → GameEntry → StateM Rehearsal (Except StoreError Unit)
  | .remembered, id, entry => do
    modify fun r => { r with writes := r.writes ++ [(id, entry)] }
    pure (.ok ())
  | .refusing, id, _ => pure (.error (.invalidId id))
  | .at root, id, entry => onMachine (Machine.call (ConfigStore.write root id entry))

/-- A runner of the machine. -/
def ofMachine (r : Runner Machine) : Runner Rehearsal :=
  r.onPart (·.machine) fun machine s => { s with machine }

/-- A stand-in. -/
def ofTroupe (r : Runner Troupe) : Runner Rehearsal :=
  r.onPart (·.troupe) fun troupe s => { s with troupe }

/-- The chosen runner. -/
def runner : RunnerChoice → Runner Rehearsal
  | .standIn name _ => ofTroupe (Troupe.mainRunner name)
  | .system r => ofMachine (r.toProgram.runner Machine.platform)

/-- What the chosen runner needs first. -/
def dependency : RunnerChoice → Option (Runner Rehearsal)
  | .standIn _ needed => needed.map fun name => ofTroupe (Troupe.neededRunner name)
  | .system r => r.dependency.map fun d => ofMachine (d.runner Machine.platform)

/-- What a rehearsed install acts through; without `heedful` it cannot be called off. -/
def host (files : FilesChoice) (store : StoreChoice) (runner : RunnerChoice) (heedful : Bool) :
    Host Rehearsal :=
  { Rehearsal.files files with
    runner := Rehearsal.runner runner
    dependency := Rehearsal.dependency runner
    saveEntry := saveEntry store
    spawn := fun l => onMachine (Machine.spawn l)
    isCancelled := do pure (heedful && (← get).memory.cancelled)
    append := fun dir game e => onMachine (Machine.append dir game e)
    newRunId := onMachine do pure (← get).now.runId
    clock := pure 0 }

end Rehearsal

end GameInstaller
