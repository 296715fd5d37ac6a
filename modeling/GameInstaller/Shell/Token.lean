/-! # Words and tokens of scripts

A script is a sequence of words and operators.  A word is made of pieces: plain text, values of
parameters and outputs of scripts.  Quotes are gone, but each piece remembers whether it was quoted,
since only an unquoted one is split into several words or matched against file names.

* `Piece`    a piece of a word
* `Token`    a word, an operator or a line end
* `tokens`   the tokens of a script -/

namespace GameInstaller.Shell

/-- How the value of a parameter is used. -/
inductive Use where
  | value
  /-- The word when the parameter is unset, or blank too if `blank`. -/
  | orElse (blank : Bool)
  /-- The word when the parameter is set, and not blank if `blank`. -/
  | ifSet (blank : Bool)
  /-- The number of characters. -/
  | length
  /-- The value without what the pattern covers at its start or end. -/
  | trim (atEnd longest : Bool)
  deriving DecidableEq, Repr

/-- Whether the word of a use is a pattern. -/
def Use.isTrim : Use → Bool
  | trim .. => true
  | _ => false

/-- A piece of a word. -/
inductive Piece where
  | text (chars : List Char) (quoted : Bool)
  | parameter (name : String) (use : Use) (word : List Piece) (quoted : Bool)
  /-- What a script writes. -/
  | output (script : List Char) (quoted : Bool)
  /-- The value of an expression. -/
  | value (expression : List Piece) (quoted : Bool)
  deriving Repr

/-- A word. -/
abbrev Word := List Piece

/-- A token, words and line ends with the number of their line. -/
inductive Token where
  | word (line : Nat) (w : Word)
  | operator (line : Nat) (name : String)
  /-- A redirection of a stream. -/
  | redirect (line : Nat) (stream : Option Nat) (name : String)
  | newline
  /-- A quote or bracket without an end. -/
  | unterminated (line : Nat)
  deriving Repr

/-- What surrounds the pieces that are read. -/
inductive Surround where
  /-- A word of its own. -/
  | bare
  | doubleQuotes
  /-- The word of a parameter, in braces. -/
  | braces (quoted : Bool)
  deriving DecidableEq, Repr

namespace Surround

def quoted : Surround → Bool
  | bare => false
  | doubleQuotes => true
  | braces q => q

end Surround

/-- Characters that end a word. -/
def isMeta (c : Char) : Bool := [' ', '\t', '\n', ';', '&', '|', '(', ')', '<', '>'].contains c

/-- Whether a name of a variable may start with this character. -/
def isNameStart (c : Char) : Bool := c.isAlpha || c == '_'

/-- Whether a name of a variable may go on with this character. -/
def isNameChar (c : Char) : Bool := c.isAlphanum || c == '_'

/-- Characters that name a special parameter. -/
def isSpecial (c : Char) : Bool := c.isDigit || ['@', '*', '#', '?', '$', '!', '-'].contains c

/-- The text up to the parenthesis that closes one already open, and what follows it. -/
def closing : Nat → List Char → Option (List Char × List Char)
  | _, [] => none
  | depth, '\\' :: c :: r => (closing depth r).map fun (s, r) => ('\\' :: c :: s, r)
  | depth, '(' :: r => (closing (depth + 1) r).map fun (s, r) => ('(' :: s, r)
  | 0, ')' :: r => some ([], r)
  | depth + 1, ')' :: r => (closing depth r).map fun (s, r) => (')' :: s, r)
  | depth, c :: r => (closing depth r).map fun (s, r) => (c :: s, r)

/-- The text up to a character, and what follows that. -/
def upTo (stop : Char) (cs : List Char) : Option (List Char × List Char) :=
  match cs.dropWhile (· != stop) with
  | [] => none
  | _ :: r => some (cs.takeWhile (· != stop), r)

/-- The name of a parameter in braces, and what follows it. -/
def parameterName : List Char → Option (String × List Char)
  | [] => none
  | c :: r =>
    if isNameStart c then
      some (String.ofList (c :: r.takeWhile isNameChar), r.dropWhile isNameChar)
    else if c.isDigit then
      some (String.ofList (c :: r.takeWhile Char.isDigit), r.dropWhile Char.isDigit)
    else if isSpecial c then some (c.toString, r)
    else none

/-- How a parameter in braces is used, by what follows its name. -/
def useOf : List Char → Option (Use × List Char)
  | ':' :: '-' :: r => some (.orElse true, r)
  | '-' :: r => some (.orElse false, r)
  | ':' :: '+' :: r => some (.ifSet true, r)
  | '+' :: r => some (.ifSet false, r)
  | '#' :: '#' :: r => some (.trim false true, r)
  | '#' :: r => some (.trim false false, r)
  | '%' :: '%' :: r => some (.trim true true, r)
  | '%' :: r => some (.trim true false, r)
  | _ => none

/-- The expression in two parentheses after a dollar sign, and what follows it. -/
def expression : List Char → Option (List Char × List Char)
  | '(' :: '(' :: r =>
    match closing 0 r with
    | some (text, ')' :: r) => some (text, r)
    | _ => none
  | _ => none

mutual

/-- What a dollar sign stands for. -/
def dollar (fuel : Nat) (quoted : Bool) (cs : List Char) : Option (Piece × List Char) :=
  match fuel with
  | 0 => none
  | fuel + 1 =>
    match cs with
    | '(' :: r =>
      match expression cs with
      | some (text, rest) =>
        (pieces fuel .doubleQuotes (text ++ ['"'])).map fun (w, _) => (.value w quoted, rest)
      | none => (closing 0 r).map fun (script, r) => (.output script quoted, r)
    | '{' :: '#' :: '}' :: r => some (.parameter "#" .value [] quoted, r)
    | '{' :: '#' :: r =>
      match parameterName r with
      | some (name, '}' :: r) => some (.parameter name .length [] quoted, r)
      | _ => none
    | '{' :: r =>
      match parameterName r with
      | some (name, '}' :: r) => some (.parameter name .value [] quoted, r)
      | some (name, r) =>
        match useOf r with
        | none => none
        | some (use, r) =>
          (pieces fuel (.braces (quoted && !use.isTrim)) r).map fun (w, r) =>
            (.parameter name use w quoted, r)
      | none => none
    | c :: r =>
      if isNameStart c then
        some (.parameter (String.ofList (c :: r.takeWhile isNameChar)) .value [] quoted,
          r.dropWhile isNameChar)
      else if isSpecial c then some (.parameter c.toString .value [] quoted, r)
      else some (.text ['$'] quoted, c :: r)
    | [] => some (.text ['$'] quoted, [])

/-- The pieces up to the end of what surrounds them, and what follows that. -/
def pieces (fuel : Nat) (around : Surround) (cs : List Char) : Option (List Piece × List Char) :=
  match fuel with
  | 0 => none
  | fuel + 1 =>
    let more (p : List Piece) (r : List Char) : Option (List Piece × List Char) :=
      (pieces fuel around r).map fun (w, r) => (p ++ w, r)
    match cs with
    | [] => if around = .bare then some ([], []) else none
    | '\\' :: '\n' :: r => more [] r
    | '\\' :: c :: r =>
      if around = .doubleQuotes && !(['$', '\x60', '"', '\\'].contains c) then
        more [.text ['\\', c] true] r
      else more [.text [c] true] r
    | '$' :: r =>
      match dollar fuel around.quoted r with
      | some (p, r) => more [p] r
      | none => none
    | c :: r =>
      if c = '\x60' then
        match upTo '\x60' r with
        | some (script, r) => more [.output script around.quoted] r
        | none => none
      else if c = '"' then
        if around = .doubleQuotes then some ([], r)
        else
          match pieces fuel .doubleQuotes r with
          | some (w, r) => more (.text [] true :: w) r
          | none => none
      else if c = '\'' && !around.quoted then
        match upTo '\'' r with
        | some (s, r) => more [.text s true] r
        | none => none
      else if c = '}' && (around = .braces true || around = .braces false) then some ([], r)
      else if around = .bare && isMeta c then some ([], cs)
      else more [.text [c] around.quoted] r

end

/-- Operators, longer ones before their beginnings. -/
def operators : List String := ["&&", "||", ";;", ";", "&", "|", "(", ")"]

/-- Redirections, longer ones before their beginnings. -/
def redirections : List String := [">>", ">&", ">|", "<&", "<", ">"]

/-- The first of some names that a text starts with, and what follows it. -/
def startingWith (names : List String) (cs : List Char) : Option (String × List Char) :=
  names.findSome? fun n =>
    if n.toList.isPrefixOf cs then some (n, cs.drop n.length) else none

/-- The number of line ends in a text. -/
def lineEnds (cs : List Char) : Nat := (cs.filter (· == '\n')).length

/-- The tokens of a text that starts on a line. -/
def tokensFrom : Nat → Nat → List Char → List Token
  | 0, _, _ => []
  | fuel + 1, line, cs =>
    match cs with
    | [] => []
    | ' ' :: r => tokensFrom fuel line r
    | '\t' :: r => tokensFrom fuel line r
    | '\\' :: '\n' :: r => tokensFrom fuel (line + 1) r
    | '\n' :: r => .newline :: tokensFrom fuel (line + 1) r
    | '#' :: r => tokensFrom fuel line (r.dropWhile (· != '\n'))
    | _ =>
      let digits := cs.takeWhile Char.isDigit
      match startingWith redirections (cs.drop digits.length), startingWith operators cs with
      | some (name, r), _ =>
        .redirect line (String.ofList digits).toNat? name :: tokensFrom fuel line r
      | none, some (name, r) => .operator line name :: tokensFrom fuel line r
      | none, none =>
        match pieces fuel .bare cs with
        | some (w, r) =>
          .word line w :: tokensFrom fuel (line + lineEnds (cs.take (cs.length - r.length))) r
        | none => [.unterminated line]

/-- The tokens of a script. -/
def tokens (cs : List Char) : List Token := tokensFrom (cs.length + 2) 1 cs

end GameInstaller.Shell
