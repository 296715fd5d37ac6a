import GameInstaller.Shell.State

/-! # Builtin commands

The commands that the shell itself knows and that run no others.  Each gives its status. -/

namespace GameInstaller.Shell

/-- The value of up to `n` octal digits, and what follows them. -/
def octal (n value : Nat) (cs : List Char) : Nat × List Char :=
  match n, cs with
  | n + 1, c :: r =>
    if '0' ≤ c && c ≤ '7' then octal n (value * 8 + (c.toNat - '0'.toNat)) r else (value, cs)
  | _, _ => (value, cs)

/-- The character that an escape stands for, by the letter behind its backslash. -/
def escapes : List (Char × Char) :=
  [('a', '\x07'), ('b', '\x08'), ('f', '\x0c'), ('n', '\n'), ('r', '\r'), ('t', '\t'),
   ('v', '\x0b'), ('\\', '\\')]

/-- Whether a character is an octal digit. -/
def isOctal (c : Char) : Bool := '0' ≤ c && c ≤ '7'

/-- The bytes of a text with its escapes replaced, and whether `\c` cut it short.  An octal escape
    stands for a single byte. -/
def unescaped (fuel : Nat) (cs : List Char) : List UInt8 × Bool :=
  match fuel with
  | 0 => ([], false)
  | fuel + 1 =>
    let more (bytes : List UInt8) (r : List Char) : List UInt8 × Bool :=
      let (s, cut) := unescaped fuel r
      (bytes ++ s, cut)
    match cs with
    | [] => ([], false)
    | '\\' :: 'c' :: _ => ([], true)
    | '\\' :: '0' :: r =>
      let (n, r) := octal 3 0 r
      more [UInt8.ofNat n] r
    | '\\' :: c :: r =>
      match escapes.find? fun (k, _) => k == c with
      | some (_, value) => more (String.utf8EncodeChar value) r
      | none =>
        if isOctal c then
          let (n, r) := octal 3 0 (c :: r)
          more [UInt8.ofNat n] r
        else more (String.utf8EncodeChar '\\') (c :: r)
    | c :: r => more (String.utf8EncodeChar c) r

/-- Write arguments with a blank between them, escapes replaced. -/
def echo (io : Streams) (args : List String) : Eval Nat := do
  let (plain, args) := match args with
    | "-n" :: r => (true, r)
    | r => (false, r)
  let cs := (" ".intercalate args).toList
  let (shown, cut) := unescaped (cs.length + 1) cs
  writeTo io.output ⟨shown.toArray⟩
  if !plain && !cut then say io.output "\n"
  pure 0

/-- How a value is laid out: at the left or the right of a field, filled with blanks or zeros, and
    how much of it is shown. -/
structure Layout where
  left : Bool
  zeros : Bool
  width : Nat
  precision : Option Nat
  deriving Repr

/-- The layout that a format directive starts with, and what follows it. -/
def Layout.take (cs : List Char) : Layout × List Char :=
  let isFlag (c : Char) : Bool := ['-', '0', '+', ' ', '#'].contains c
  let number (cs : List Char) : Nat := ((String.ofList (cs.takeWhile Char.isDigit)).toNat?).getD 0
  let flags := cs.takeWhile isFlag
  let cs := cs.dropWhile isFlag
  let rest := cs.dropWhile Char.isDigit
  let layout : Layout := ⟨flags.contains '-', flags.contains '0', number cs, none⟩
  match rest with
  | '.' :: r => ({ layout with precision := some (number r) }, r.dropWhile Char.isDigit)
  | r => (layout, r)

/-- A value filled up to the width of its field. -/
def Layout.fill {α : Type} (l : Layout) (blank : α) (value : List α) : List α :=
  let filling := List.replicate (l.width - value.length) blank
  if l.left then value ++ filling else filling ++ value

/-- The part of a value that is shown. -/
def Layout.cut {α : Type} (l : Layout) (value : List α) : List α :=
  match l.precision with
  | some n => value.take n
  | none => value

/-- A number in a field.  Zeros go between the sign and the digits. -/
def Layout.number (l : Layout) (negative : Bool) (digits : List Char) : List Char :=
  let sign : List Char := if negative then ['-'] else []
  let digits := List.replicate ((l.precision.getD 0) - digits.length) '0' ++ digits
  if l.zeros && !l.left && l.precision.isNone then
    sign ++ Layout.fill { l with width := l.width - sign.length } '0' digits
  else l.fill ' ' (sign ++ digits)

/-- The bytes that a directive of a format stands for, by its letter; nothing when there is no such
    directive. -/
def Layout.show? (l : Layout) (letter : Char) (arg : Option String) : Option (List UInt8) :=
  let text := arg.getD ""
  let bytes (cs : List Char) : List UInt8 := cs.flatMap String.utf8EncodeChar
  let n : Int := (text.toInt?).getD 0
  if letter = 's' then some (l.fill 0x20 (l.cut text.toUTF8.toList))
  else if letter = 'b' then
    some (l.fill 0x20 (l.cut (unescaped (text.length + 1) text.toList).1))
  else if letter = 'c' then some (l.fill 0x20 (text.toUTF8.toList.take 1))
  else if letter = 'd' || letter = 'i' || letter = 'u' then
    some (bytes (l.number (n < 0) (Nat.toDigits 10 n.natAbs)))
  else if letter = 'x' then some (bytes (l.number false (Nat.toDigits 16 n.natAbs)))
  else if letter = 'o' then some (bytes (l.number false (Nat.toDigits 8 n.natAbs)))
  else none

/-- One pass over a format: the bytes, and the arguments that are left. -/
def formatted (fuel : Nat) (cs : List Char) (args : List String) : List UInt8 × List String :=
  match fuel with
  | 0 => ([], args)
  | fuel + 1 =>
    let more (s : List UInt8) (r : List Char) (args : List String) : List UInt8 × List String :=
      let (t, args) := formatted fuel r args
      (s ++ t, args)
    match cs with
    | [] => ([], args)
    | '%' :: '%' :: r => more [0x25] r args
    | '%' :: r =>
      let (layout, rest) := Layout.take r
      match rest with
      | letter :: rest =>
        match layout.show? letter args.head? with
        | some s => more s rest (args.drop 1)
        | none => more [0x25] r args
      | [] => more [0x25] r args
    | '\\' :: c :: r =>
      match escapes.find? fun (k, _) => k == c with
      | some (_, value) => more (String.utf8EncodeChar value) r args
      | none =>
        if isOctal c then
          let (n, r) := octal 3 0 (c :: r)
          more [UInt8.ofNat n] r args
        else more ([0x5C] ++ String.utf8EncodeChar c) r args
    | c :: r => more (String.utf8EncodeChar c) r args

/-- Passes over a format until no arguments are left. -/
def formatAll (fuel : Nat) (cs : List Char) (args : List String) : List UInt8 :=
  match fuel with
  | 0 => []
  | fuel + 1 =>
    let (s, left) := formatted (cs.length + 1) cs args
    if left.isEmpty || left.length = args.length then s else s ++ formatAll fuel cs left

/-- Write arguments by a format. -/
def printf (io : Streams) : List String → Eval Nat
  | [] => pure 2
  | fmt :: args => do
    writeTo io.output ⟨(formatAll (args.length + 1) fmt.toList args).toArray⟩
    pure 0

/-- Whether the node that a path leads to satisfies a condition. -/
def nodeTest (p : String) (final : Disk.Final) (test : Disk.Node → Bool) : Eval Bool := do
  match (← get).disk.stat final ⟨p⟩ with
  | .ok n => pure (test n)
  | .error _ => pure false

/-- A test of one operand; nothing when there is no such test. -/
def unaryTest (op x : String) : Eval (Option Bool) := do
  match op with
  | "-n" => pure (some (!x.isEmpty))
  | "-z" => pure (some x.isEmpty)
  | "-e" => pure (some (← nodeTest x .follow fun _ => true))
  | "-r" => pure (some (← nodeTest x .follow fun _ => true))
  | "-w" => pure (some (← nodeTest x .follow fun _ => true))
  | "-f" => pure (some (← nodeTest x .follow (·.isFile)))
  | "-d" => pure (some (← nodeTest x .follow (·.isDir)))
  | "-h" => pure (some (← nodeTest x .keep (·.isLink)))
  | "-L" => pure (some (← nodeTest x .keep (·.isLink)))
  | "-s" => pure (some (← nodeTest x .follow fun
      | .file content _ _ => content.size ≠ 0
      | _ => true))
  | "-x" => pure (some (← nodeTest x .follow fun
      | .file _ mode _ => mode / 64 % 2 = 1 || mode / 8 % 2 = 1 || mode % 2 = 1
      | _ => true))
  | _ => pure none

/-- A test of two operands; nothing when there is no such test. -/
def binaryTest (a op b : String) : Option Bool :=
  match op, a.toInt?, b.toInt? with
  | "=", _, _ => some (a == b)
  | "!=", _, _ => some (a != b)
  | "-eq", some m, some n => some (m = n)
  | "-ne", some m, some n => some (m ≠ n)
  | "-lt", some m, some n => some (m < n)
  | "-le", some m, some n => some (m ≤ n)
  | "-gt", some m, some n => some (m > n)
  | "-ge", some m, some n => some (m ≥ n)
  | _, _, _ => none

/-- The outcome of a test; nothing when it is none. -/
def test : List String → Eval (Option Bool)
  | [] => pure (some false)
  | [x] => pure (some (!x.isEmpty))
  | [op, x] => if op = "!" then pure (some x.isEmpty) else unaryTest op x
  | [a, op, b] =>
    match binaryTest a op b with
    | some r => pure (some r)
    | none =>
      if a = "!" then do pure ((← unaryTest op b).map not)
      else pure none
  | ["!", a, op, b] => pure ((binaryTest a op b).map not)
  | _ => pure none

/-- The status of a test. -/
def testStatus (args : List String) : Eval Nat := do
  match ← test args with
  | some true => pure 0
  | some false => pure 1
  | none => pure 2

/-- The signals that `kill` knows. -/
def signals : List (String × Nat) :=
  [("HUP", 1), ("INT", 2), ("QUIT", 3), ("ABRT", 6), ("KILL", 9), ("TERM", 15), ("0", 0)]

/-- The signal of an option, by name or number. -/
def signal? (name : String) : Option Nat :=
  match signals.find? fun (n, _) => n == name with
  | some (_, k) => some k
  | none => name.toNat?

/-- Send a signal; the only process there is to send it to is the sender. -/
def kill (self : Nat) (args : List String) : Eval Nat := do
  let (signal, targets) := match args with
    | "-s" :: name :: r => ((signal? name).getD 15, r)
    | a :: r => if a.startsWith "-" then ((signal? (a.drop 1).toString).getD 15, r) else (15, a :: r)
    | [] => (15, [])
  if targets.contains (toString self) then
    if signal = 0 then pure 0 else throw (.killed signal)
  else pure 1

/-- Change the working directory. -/
def changeDir (path : String) : Eval Nat := do
  let s ← get
  match s.disk.resolve .follow ⟨path⟩ with
  | .ok r =>
    match r.node with
    | some .dir =>
      set { s with disk := { s.disk with working := r.location } }
      pure 0
    | _ => pure 2
  | .error _ => pure 2

/-- Export variables, each with its new value if one is given. -/
def exportAll (args : List String) : Eval Unit := do
  args.forM fun a => do
    match a.splitOn "=" with
    | [name] => modify fun s =>
      match s.valueOf name with
      | some value => s.assign name value true
      | none => s
    | name :: value => modify fun s => s.assign name ("=".intercalate value) true
    | [] => pure ()

end GameInstaller.Shell
