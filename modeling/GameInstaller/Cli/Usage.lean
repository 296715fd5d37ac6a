/-! # Reading arguments

What a subcommand takes is a list of operands, in order, and a set of options.  Its arguments are
read from left to right.  A value is checked when the next argument settles it, so that an unknown
argument is reported before a bad value that stands right in front of it.

* `Usage`          what a subcommand takes
* `Usage.read`     the values that arguments give
* `Usage.Refusal`  why arguments were not read -/

namespace GameInstaller.Cli

/-- What a value may be. -/
inductive ValueSort where
  /-- Any text but the empty one. -/
  | path
  | text
  | oneOf (words : List String)
  deriving DecidableEq, Repr

/-- Whether a text is a value of a sort. -/
def ValueSort.accepts : ValueSort → String → Bool
  | path, s => !s.isEmpty
  | text, _ => true
  | oneOf words, s => words.contains s

/-- What an option does. -/
inductive Effect where
  /-- It shows the usage. -/
  | help
  /-- It is on when it is given. -/
  | flag
  /-- It takes a value. -/
  | value (sort : ValueSort)
  deriving DecidableEq, Repr

/-- An option, which is given after two dashes, or by its letter after one. -/
structure Choice where
  name : String
  letter : Option Char
  effect : Effect
  deriving DecidableEq, Repr

/-- An argument that is known by its place. -/
structure Operand where
  name : String
  sort : ValueSort
  required : Bool
  deriving DecidableEq, Repr

/-- What a subcommand takes. -/
structure Usage where
  operands : List Operand
  choices : List Choice
  deriving DecidableEq, Repr

/-- Why arguments were not read. -/
inductive Refusal where
  /-- Not refused: the usage was asked for. -/
  | help
  /-- Not refused: the version was asked for. -/
  | version
  /-- No subcommand was given, so the usage is shown. -/
  | nothingGiven
  | unknownArgument
  | unknownSubcommand
  | invalidValue
  | missingOperand
  /-- An option was given twice. -/
  | repeated
  /-- A value was given to an option that takes none. -/
  | unneededValue
  deriving DecidableEq, Repr

/-- The exit code of a refusal. -/
def Refusal.code : Refusal → Nat
  | help => 0
  | version => 0
  | _ => 2

/-- An argument by its form. -/
inductive Argument where
  /-- Two dashes: all that follows are operands. -/
  | dashes
  /-- An option by its name, and the value after the equals sign. -/
  | long (name : String) (value : Option String)
  /-- Options by their letters. -/
  | short (letters : List Char)
  | plain (text : String)
  deriving DecidableEq, Repr

/-- An option by its name, with the value that stands after the first equals sign. -/
def Argument.ofLong (cs : List Char) : Argument :=
  match cs.span (· != '=') with
  | (name, '=' :: value) => .long (String.ofList name) (some (String.ofList value))
  | (name, _) => .long (String.ofList name) none

/-- The form of an argument; a single dash is a plain text. -/
def Argument.ofText (s : String) : Argument :=
  match s.toList with
  | ['-', '-'] => .dashes
  | '-' :: '-' :: cs => ofLong cs
  | ['-'] => .plain s
  | '-' :: cs => .short cs
  | _ => .plain s

/-- An argument whose value is not settled. -/
structure Pending where
  name : String
  sort : ValueSort
  /-- The value, once it has been given. -/
  value : Option String
  deriving DecidableEq, Repr

/-- Arguments read so far. -/
structure Reading where
  /-- The settled values, by the names of their operands and options. -/
  given : List (String × String)
  pending : Option Pending
  /-- The operands to come. -/
  operands : List Operand
  deriving DecidableEq, Repr

namespace Reading

/-- Give an option or operand its value. -/
def assign (r : Reading) (name : String) (sort : ValueSort) (value : String) :
    Except Refusal Reading :=
  if r.given.any fun (k, _) => k == name then .error .repeated
  else if sort.accepts value then .ok { r with given := r.given ++ [(name, value)], pending := none }
  else .error .invalidValue

/-- Settle the pending value. -/
def settle (r : Reading) : Except Refusal Reading :=
  match r.pending with
  | none => .ok r
  | some ⟨name, sort, some value⟩ => r.assign name sort value
  | some ⟨_, _, none⟩ => .error .invalidValue

/-- An option without a value right after it. -/
def takeBare (r : Reading) (c : Choice) : Except Refusal Reading := do
  let r ← r.settle
  match c.effect with
  | .help => .error .help
  | .flag => r.assign c.name .text ""
  | .value sort => .ok { r with pending := some ⟨c.name, sort, none⟩ }

/-- An option with a value right after it. -/
def takeValued (r : Reading) (c : Choice) (value : String) : Except Refusal Reading :=
  match c.effect with
  | .value sort => do (← r.settle).assign c.name sort value
  | _ => .error .unneededValue

/-- The next operand. -/
def takeOperand (r : Reading) (value : String) : Except Refusal Reading :=
  match r.operands with
  | [] => .error .unknownArgument
  | o :: rest => do
    pure { ← r.settle with pending := some ⟨o.name, o.sort, some value⟩, operands := rest }

/-- A plain text: the value of the option before it, or the next operand. -/
def takePlain (r : Reading) (text : String) : Except Refusal Reading :=
  match r.pending with
  | some ⟨name, sort, none⟩ => .ok { r with pending := some ⟨name, sort, some text⟩ }
  | _ => r.takeOperand text

/-- What is given when no argument is left. -/
def finish (r : Reading) : Except Refusal (List (String × String)) := do
  let r ← r.settle
  if r.operands.any (·.required) then .error .missingOperand else .ok r.given

end Reading

namespace Usage

/-- The option of a name. -/
def named? (u : Usage) (name : String) : Option Choice := u.choices.find? fun c => c.name == name

/-- The option of a letter. -/
def lettered? (u : Usage) (letter : Char) : Option Choice :=
  u.choices.find? fun c => c.letter == some letter

/-- An option by its name. -/
def readLong (u : Usage) (r : Reading) (name : String) (value : Option String) :
    Except Refusal Reading :=
  match u.named? name, value with
  | none, _ => .error .unknownArgument
  | some c, none => r.takeBare c
  | some c, some v => r.takeValued c v

/-- Options by their letters; what follows one that takes a value is its value. -/
def readShort (u : Usage) (r : Reading) : List Char → Except Refusal Reading
  | [] => .ok r
  | letter :: rest =>
    match u.lettered? letter with
    | none => .error .unknownArgument
    | some c =>
      match c.effect, rest with
      | .value _, '=' :: value => r.takeValued c (String.ofList value)
      | .value _, _ :: _ => r.takeValued c (String.ofList rest)
      | _, _ => do readShort u (← r.takeBare c) rest

/-- Read arguments one after the other. -/
def readFrom (u : Usage) (r : Reading) : List String → Except Refusal Reading
  | [] => .ok r
  | a :: rest =>
    match Argument.ofText a with
    | .dashes => rest.foldlM Reading.takeOperand r
    | .long name value => do readFrom u (← u.readLong r name value) rest
    | .short letters => do readFrom u (← u.readShort r letters) rest
    | .plain text => do readFrom u (← r.takePlain text) rest

/-- The values that arguments give, by the names of operands and options. -/
def read (u : Usage) (arguments : List String) : Except Refusal (List (String × String)) := do
  (← u.readFrom ⟨[], none, u.operands⟩ arguments).finish

end Usage

end GameInstaller.Cli
