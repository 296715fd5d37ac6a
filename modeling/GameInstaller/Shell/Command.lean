import GameInstaller.Shell.Token

/-! # Commands of scripts

The grammar of scripts: lists of pipelines, the compound commands, and simple commands with their
assignments and redirections.

* `Command`       a command
* `Command.line`  the commands of one line, read from tokens -/

namespace GameInstaller.Shell

/-- A stream sent elsewhere. -/
structure Redirect where
  stream : Nat
  operator : String
  target : Word
  line : Nat
  deriving Repr

/-- A command. -/
inductive Command where
  /-- Nothing. -/
  | skip
  | simple (line : Nat) (assignments : List (String × Word)) (words : List Word)
  | redirected (c : Command) (redirects : List Redirect)
  /-- Commands on a copy of the shell. -/
  | subshell (c : Command)
  | seq (first second : Command)
  | both (first second : Command)
  | either (first second : Command)
  | negated (c : Command)
  | pipe (source sink : Command)
  | cond (test yes no : Command)
  /-- The body as long as the test succeeds, or fails if `until`. -/
  | loop (untilTrue : Bool) (test body : Command)
  /-- The body for every word, or for every argument. -/
  | each (name : String) (words : Option (List Word)) (body : Command)
  | choose (subject : Word) (arms : List (List Word × Command))
  /-- From now on a name stands for a command. -/
  | define (name : String) (body : Command)
  deriving Repr

/-- Why a script is refused, with the line. -/
structure Refusal where
  line : Nat
  text : String

/-- Reading from tokens. -/
abbrev Reader := StateT (List Token) (Except Refusal)

/-- The text of a word that is written without quotes and parameters. -/
def Word.plain? : Word → Option (List Char)
  | [] => some []
  | .text cs false :: r => (Word.plain? r).map (cs ++ ·)
  | _ => none

/-- The reserved word that a token is, were it at the start of a command. -/
def Token.reserved? : Token → Option String
  | word _ w => (Word.plain? w).map String.ofList
  | _ => none

/-- Words that only go on with a compound command. -/
def closers : List String := ["then", "else", "elif", "fi", "do", "done", "esac", "\x7d"]

/-- Whether a token starts a command. -/
def Token.startsCommand : Token → Bool
  | .operator _ name => name == "("
  | .redirect .. => true
  | .word _ w =>
    match Word.plain? w with
    | some s => !closers.contains (String.ofList s)
    | none => true
  | _ => false

/-- The refusal of what stands at the head of tokens. -/
def unexpected : List Token → Refusal
  | [] => ⟨1, "Syntax error: end of file unexpected"⟩
  | .newline :: _ => ⟨1, "Syntax error: newline unexpected"⟩
  | .operator line name :: _ => ⟨line, "Syntax error: \"" ++ name ++ "\" unexpected"⟩
  | .redirect line _ _ :: _ => ⟨line, "Syntax error: redirection unexpected"⟩
  | .unterminated line :: _ => ⟨line, "Syntax error: Unterminated quoted string"⟩
  | .word line w :: _ =>
    match Word.plain? w with
    | some s =>
      if closers.contains (String.ofList s) then
        ⟨line, "Syntax error: \"" ++ String.ofList s ++ "\" unexpected"⟩
      else ⟨line, "Syntax error: word unexpected"⟩
    | none => ⟨line, "Syntax error: word unexpected"⟩

/-- Tokens without the line ends at their start. -/
def dropNewlines : List Token → List Token
  | .newline :: r => dropNewlines r
  | ts => ts

/-- Refuse what is at the head. -/
def refuse {α : Type} : Reader α := do throw (unexpected (← get))

/-- Refuse what is at the head in place of a word or operator. -/
def refuseFor {α : Type} (name : String) : Reader α := do
  let r := unexpected (← get)
  throw { r with text := r.text ++ " (expecting \"" ++ name ++ "\")" }

/-- Pass over line ends. -/
def skipNewlines : Reader Unit := modify dropNewlines

/-- Take a reserved word. -/
def expect (name : String) : Reader Unit := do
  skipNewlines
  match ← get with
  | t :: r => if t.reserved? == some name then set r else refuseFor name
  | [] => refuseFor name

/-- Take the next token if it is the reserved word. -/
def takeReserved (name : String) : Reader Bool := do
  match ← get with
  | t :: r =>
    if t.reserved? == some name then
      set r
      pure true
    else pure false
  | [] => pure false

/-- Take the next token if it is one of some operators. -/
def takeOperator (names : List String) : Reader (Option String) := do
  match ← get with
  | .operator _ name :: r =>
    if names.contains name then
      set r
      pure (some name)
    else pure none
  | _ => pure none

/-- Take a word. -/
def takeWord : Reader Word := do
  match ← get with
  | .word _ w :: r =>
    set r
    pure w
  | _ => refuse

/-- The stream that a redirection concerns when none is given. -/
def defaultStream (operator : String) : Nat := if operator.startsWith "<" then 0 else 1

/-- A word as an assignment of a variable, given the reversed start of the variable's name. -/
def assignmentOf (name : List Char) : Word → Option (String × Word)
  | .text [c] false :: r =>
    if c = '=' then
      match name.reverse with
      | [] => none
      | s :: cs => if isNameStart s then some (String.ofList (s :: cs), r) else none
    else if isNameChar c then assignmentOf (c :: name) r
    else none
  | _ => none

/-- A word as an assignment of a variable. -/
def assignment? (w : Word) : Option (String × Word) := assignmentOf [] w

/-- The redirection at the head, if there is one. -/
def redirect? : Reader (Option Redirect) := do
  match ← get with
  | .redirect line stream name :: r =>
    set r
    let w ← takeWord
    pure (some ⟨stream.getD (defaultStream name), name, w, line⟩)
  | _ => pure none

/-- The redirections at the head. -/
def redirects : Nat → Reader (List Redirect)
  | 0 => pure []
  | fuel + 1 => do
    match ← redirect? with
    | some r => pure (r :: (← redirects fuel))
    | none => pure []

/-- The parts of a simple command. -/
structure Parts where
  assignments : List (String × Word)
  words : List Word
  redirects : List Redirect

/-- The parts of the simple command at the head; `named` once its program was read. -/
def simpleParts : Nat → Bool → Reader Parts
  | 0, _ => refuse
  | fuel + 1, named => do
    match ← redirect? with
    | some d =>
      let p ← simpleParts fuel named
      pure { p with redirects := d :: p.redirects }
    | none =>
      match ← get with
      | .word _ w :: r =>
        set r
        match named, assignment? w with
        | false, some a =>
          let p ← simpleParts fuel false
          pure { p with assignments := a :: p.assignments }
        | _, _ =>
          let p ← simpleParts fuel true
          pure { p with words := w :: p.words }
      | _ => pure ⟨[], [], []⟩

/-- The words up to the end of a `for` list. -/
def wordList : Nat → Reader (List Word)
  | 0 => refuse
  | fuel + 1 => do
    match ← get with
    | .newline :: r =>
      set r
      pure []
    | _ =>
      match ← takeOperator [";"] with
      | some _ => pure []
      | none =>
        let w ← takeWord
        pure (w :: (← wordList fuel))

/-- The alternative patterns of an arm, up to the parenthesis that ends them. -/
def patterns : Nat → Reader (List Word)
  | 0 => refuse
  | fuel + 1 => do
    let w ← takeWord
    match ← takeOperator [")", "|"] with
    | some ")" => pure [w]
    | some _ => pure (w :: (← patterns fuel))
    | none => refuse

/-- The line of the token at the head. -/
def lineOf : List Token → Nat
  | .word line _ :: _ => line
  | .operator line _ :: _ => line
  | .redirect line _ _ :: _ => line
  | .unterminated line :: _ => line
  | _ => 1

/-- A command with its redirections, if it has any. -/
def Command.withRedirects (c : Command) (rs : List Redirect) : Command :=
  if rs.isEmpty then c else .redirected c rs

/-- Whether a command starts at the head. -/
def commandStarts : Reader Bool := do
  match ← get with
  | t :: _ => pure t.startsCommand
  | [] => pure false

/-- The next token as a reserved word. -/
def nextReserved : Reader (Option String) := do
  match ← get with
  | t :: _ => pure t.reserved?
  | [] => pure none

/-- A compound command with the redirections behind it. -/
def Command.close (c : Command) : Reader Command := do
  pure (c.withRedirects (← redirects (← get).length))

mutual

/-- Pipelines joined by `&&` and `||`. -/
def Command.chain (fuel : Nat) : Reader Command :=
  match fuel with
  | 0 => refuse
  | fuel + 1 => do
    let c ← Command.pipeline fuel
    Command.chainRest fuel c

/-- The rest of a chain, whose first pipelines are `c`. -/
def Command.chainRest (fuel : Nat) (c : Command) : Reader Command :=
  match fuel with
  | 0 => refuse
  | fuel + 1 => do
    match ← takeOperator ["&&", "||"] with
    | none => pure c
    | some name =>
      skipNewlines
      let d ← Command.pipeline fuel
      Command.chainRest fuel (if name == "&&" then .both c d else .either c d)

/-- Commands joined by `|`. -/
def Command.pipeline (fuel : Nat) : Reader Command :=
  match fuel with
  | 0 => refuse
  | fuel + 1 => do
    if ← takeReserved "!" then
      let c ← Command.pipeline fuel
      pure (.negated c)
    else
      let c ← Command.single fuel
      match ← takeOperator ["|"] with
      | none => pure c
      | some _ =>
        skipNewlines
        let d ← Command.pipeline fuel
        pure (.pipe c d)

/-- Chains up to a closing word or bracket. -/
def Command.list (fuel : Nat) : Reader Command :=
  match fuel with
  | 0 => refuse
  | fuel + 1 => do
    skipNewlines
    if ← commandStarts then
      let c ← Command.chain fuel
      let ended ← takeOperator [";", "&"]
      match ended, ← get with
      | none, .newline :: _ =>
        let d ← Command.list fuel
        pure (.seq c d)
      | none, _ => pure c
      | some _, _ =>
        let d ← Command.list fuel
        pure (.seq c d)
    else pure .skip

/-- One command with its redirections. -/
def Command.single (fuel : Nat) : Reader Command :=
  match fuel with
  | 0 => refuse
  | fuel + 1 => do
    if !(← commandStarts) then refuse
    else
      match ← takeOperator ["("] with
      | some _ =>
        let c ← Command.list fuel
        match ← takeOperator [")"] with
        | some _ => Command.close (.subshell c)
        | none => refuseFor ")"
      | none =>
        let line := lineOf (← get)
        match ← nextReserved with
        | some "\x7b" =>
          expect "\x7b"
          let c ← Command.list fuel
          expect "\x7d"
          Command.close c
        | some "if" =>
          expect "if"
          Command.close (← Command.conditional fuel)
        | some "while" =>
          expect "while"
          Command.close (← Command.looping fuel false)
        | some "until" =>
          expect "until"
          Command.close (← Command.looping fuel true)
        | some "for" =>
          expect "for"
          Command.close (← Command.forEach fuel)
        | some "case" =>
          expect "case"
          Command.close (← Command.choice fuel)
        | _ =>
          let p ← simpleParts ((← get).length + 1) false
          match p.words, ← takeOperator ["("] with
          | [w], some _ => Command.definition fuel ((Word.plain? w).getD [])
          | _, some _ => refuse
          | _, none =>
            pure ((Command.simple line p.assignments p.words).withRedirects p.redirects)

/-- What follows a name and a parenthesis. -/
def Command.definition (fuel : Nat) (name : List Char) : Reader Command :=
  match fuel with
  | 0 => refuse
  | fuel + 1 => do
    match ← takeOperator [")"] with
    | none => refuseFor ")"
    | some _ =>
      skipNewlines
      let body ← Command.single fuel
      pure (.define (String.ofList name) body)

/-- What follows `if` or `elif`. -/
def Command.conditional (fuel : Nat) : Reader Command :=
  match fuel with
  | 0 => refuse
  | fuel + 1 => do
    let test ← Command.list fuel
    expect "then"
    let yes ← Command.list fuel
    if ← takeReserved "elif" then
      let no ← Command.conditional fuel
      pure (.cond test yes no)
    else if ← takeReserved "else" then
      let no ← Command.list fuel
      expect "fi"
      pure (.cond test yes no)
    else
      expect "fi"
      pure (.cond test yes .skip)

/-- What follows `while` or `until`. -/
def Command.looping (fuel : Nat) (untilTrue : Bool) : Reader Command :=
  match fuel with
  | 0 => refuse
  | fuel + 1 => do
    let test ← Command.list fuel
    expect "do"
    let body ← Command.list fuel
    expect "done"
    pure (.loop untilTrue test body)

/-- What follows `for`. -/
def Command.forEach (fuel : Nat) : Reader Command :=
  match fuel with
  | 0 => refuse
  | fuel + 1 => do
    match Word.plain? (← takeWord) with
    | none => refuse
    | some name =>
      skipNewlines
      let words ←
        if ← takeReserved "in" then do
          pure (some (← wordList (← get).length))
        else do
          let _ ← takeOperator [";"]
          pure none
      expect "do"
      let body ← Command.list fuel
      expect "done"
      pure (.each (String.ofList name) words body)

/-- What follows `case`. -/
def Command.choice (fuel : Nat) : Reader Command :=
  match fuel with
  | 0 => refuse
  | fuel + 1 => do
    let w ← takeWord
    expect "in"
    pure (.choose w (← Command.arms fuel))

/-- The arms up to `esac`. -/
def Command.arms (fuel : Nat) : Reader (List (List Word × Command)) :=
  match fuel with
  | 0 => refuse
  | fuel + 1 => do
    skipNewlines
    if ← takeReserved "esac" then pure []
    else
      let _ ← takeOperator ["("]
      let ps ← patterns (← get).length
      let body ← Command.list fuel
      skipNewlines
      match ← takeOperator [";;"] with
      | some _ =>
        let more ← Command.arms fuel
        pure ((ps, body) :: more)
      | none =>
        expect "esac"
        pure [(ps, body)]

end

/-- The chains up to the end of a line. -/
def Command.untilNewline : Nat → Reader Command
  | 0 => refuse
  | fuel + 1 => do
    let c ← Command.chain (9 * (← get).length + 9)
    let ended ← takeOperator [";", "&"]
    match ended, ← get with
    | _, [] => pure c
    | _, .newline :: r =>
      set r
      pure c
    | some _, _ =>
      let d ← Command.untilNewline fuel
      pure (.seq c d)
    | none, _ => refuse

/-- The commands of the first line, and the tokens after it; nothing when no commands are left. -/
def Command.line (ts : List Token) : Except Refusal (Option (Command × List Token)) :=
  match dropNewlines ts with
  | [] => .ok none
  | t :: r => ((Command.untilNewline (r.length + 2)).run (t :: r)).map some

end GameInstaller.Shell
