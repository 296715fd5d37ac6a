/-! # Environments

Named values that a process is given, in order, no name twice. -/

namespace GameInstaller

/-- An environment. -/
structure Environment where
  vars : List (String × String)
  deriving Repr, Inhabited

namespace Environment

/-- The value of a name. -/
def get? (e : Environment) (name : String) : Option String :=
  (e.vars.find? fun (k, _) => k == name).map (·.2)

/-- Entries with a name given a value, in place or at the end. -/
def putVar (name value : String) : List (String × String) → List (String × String)
  | [] => [(name, value)]
  | (k, v) :: r => if k = name then (name, value) :: r else (k, v) :: putVar name value r

/-- Give a name a value. -/
def set (e : Environment) (name value : String) : Environment := ⟨putVar name value e.vars⟩

/-- Take a name away. -/
def unset (e : Environment) (name : String) : Environment := ⟨e.vars.filter fun (k, _) => k ≠ name⟩

/-- Give all names of another environment their values there. -/
def extend (e : Environment) (more : List (String × String)) : Environment :=
  more.foldl (fun e (k, v) => e.set k v) e

end Environment

end GameInstaller
