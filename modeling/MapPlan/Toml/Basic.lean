import MapPlan.Text.Hex

/-! # TOML settings

The part of TOML that a flat list of settings needs: lines of a key and a value, where a value is a
string in any of the four quotings, an integer, a boolean, or an array of these. Tables, dotted
keys, fractions and dates are no settings, so a text with one of them is refused like a malformed
one. -/

namespace MapPlan.Toml

inductive Scalar where
  | str (s : String)
  | int (n : Int)
  | bool (b : Bool)
deriving DecidableEq, Repr

inductive Value where
  | scalar (v : Scalar)
  | array (items : List Scalar)
deriving DecidableEq, Repr

/-- A reader takes a value off the start of a text. -/
abbrev Reader (α : Type) := List Char → Option (α × List Char)

/-! ## Blanks, comments and line ends -/

def isBlank (c : Char) : Bool :=
  c == ' ' || c == '\t'

def skipBlanks (s : List Char) : List Char :=
  s.dropWhile isBlank

/-- May the character stand in a comment or in a quoted string? Control characters may not, but for
the tab. -/
def isPrintable (c : Char) : Bool :=
  c == '\t' || (0x20 ≤ c.toNat && c.toNat != 0x7F)

def skipComment : List Char → List Char
  | '#' :: s => s.dropWhile isPrintable
  | s => s

def newline? : List Char → Option (List Char)
  | '\n' :: s | '\r' :: '\n' :: s => some s
  | _ => none

/-- What follows the end of a line, with blanks and a comment before it. -/
def lineEnd? (s : List Char) : Option (List Char) :=
  match skipComment (skipBlanks s) with
  | [] => some []
  | s => newline? s

/-- The text from the next item of an array on: past blanks, comments and line ends. -/
def skipLines (s : List Char) : List Char :=
  match newline? (skipComment (skipBlanks s)) with
  | some rest => if rest.length < s.length then skipLines rest else rest
  | none => skipComment (skipBlanks s)
termination_by s.length

/-! ## Strings -/

/-- The character that an escape stands for, after its backslash. -/
def escape? : Reader Char
  | 'b' :: s => some ('\x08', s)
  | 't' :: s => some ('\t', s)
  | 'n' :: s => some ('\n', s)
  | 'f' :: s => some ('\x0C', s)
  | 'r' :: s => some ('\r', s)
  | '\x22' :: s => some ('\x22', s)
  | '\\' :: s => some ('\\', s)
  | 'u' :: s => code? 4 s
  | 'U' :: s => code? 8 s
  | _ => none
where
  code? (digits : Nat) (s : List Char) : Option (Char × List Char) := do
    let (n, rest) ← Text.takeHex? digits s
    return (← Text.charOfCode? n, rest)

/-- The rest of a string on one line. Only double quotes have escapes. -/
def line? (quote : Char) (s : List Char) : Option (List Char × List Char) :=
  match s with
  | [] => none
  | c :: cs =>
    if c = quote then some ([], cs)
    else if c = '\\' && quote = '\x22' then
      match escape? cs with
      | some (d, rest) =>
        if rest.length ≤ cs.length then
          (line? quote rest).map fun (text, after) => (d :: text, after)
        else none
      | none => none
    else if isPrintable c then (line? quote cs).map fun (text, after) => (c :: text, after)
    else none
termination_by s.length

/-- Blanks and line ends, of which a backslash at the end of a line takes all that follow. -/
def skipFolded : List Char → List Char
  | '\n' :: s | '\r' :: '\n' :: s => skipFolded s
  | c :: s => if isBlank c then skipFolded s else c :: s
  | [] => []

/-- The rest of a string on several lines. Three quotes end it, and up to two more may stand before
those as text. Line ends are read as `\n`. -/
def lines? (quote : Char) (s : List Char) : Option (List Char × List Char) :=
  match s with
  | [] => none
  | c :: cs =>
    if c = quote then
      let run := s.takeWhile (· = quote)
      if run.length < 3 then
        (lines? quote cs).map fun (text, after) => (c :: text, after)
      else if 5 < run.length then none
      else some (run.drop 3, s.dropWhile (· = quote))
    else if c = '\\' && quote = '\x22' then
      match newline? (skipBlanks cs) with
      | some _ =>
        if (skipFolded cs).length ≤ cs.length then lines? quote (skipFolded cs) else none
      | none =>
        match escape? cs with
        | some (d, rest) =>
          if rest.length ≤ cs.length then
            (lines? quote rest).map fun (text, after) => (d :: text, after)
          else none
        | none => none
    else
      match newline? s with
      | some rest =>
        if rest.length ≤ cs.length then
          (lines? quote rest).map fun (text, after) => ('\n' :: text, after)
        else none
      | none =>
        if isPrintable c then (lines? quote cs).map fun (text, after) => (c :: text, after)
        else none
termination_by s.length

/-- A string in quotes. A line end right after three quotes does not count. -/
def string? : Reader (List Char)
  | '\x22' :: '\x22' :: '\x22' :: s => lines? '\x22' ((newline? s).getD s)
  | '\x27' :: '\x27' :: '\x27' :: s => lines? '\x27' ((newline? s).getD s)
  | '\x22' :: s => line? '\x22' s
  | '\x27' :: s => line? '\x27' s
  | _ => none

/-! ## Numbers -/

/-- The value of a digit in a base. -/
def digit? (base : Nat) (c : Char) : Option Nat :=
  (Text.hexDigit? c).filter (· < base)

/-- Digits of a base, with single underscores between them. -/
def digits? (base : Nat) (s : List Char) : Option Nat :=
  match s.head?, s.getLast? with
  | some '_', _ | _, some '_' | none, _ => none
  | _, _ => go 0 false s
where
  go (n : Nat) (afterBar : Bool) : List Char → Option Nat
    | [] => some n
    | '_' :: cs => if afterBar then none else go n true cs
    | c :: cs => (digit? base c).bind fun d => go (base * n + d) false cs

/-- A decimal number other than zero does not start with a zero. -/
def natural? (s : List Char) : Option Nat :=
  match s with
  | ['0'] => some 0
  | '0' :: _ => none
  | _ => digits? 10 s

/-- A whole number as it is written. A sign goes with decimal digits only. -/
def integer? : List Char → Option Int
  | '0' :: 'x' :: s => (digits? 16 s).map .ofNat
  | '0' :: 'o' :: s => (digits? 8 s).map .ofNat
  | '0' :: 'b' :: s => (digits? 2 s).map .ofNat
  | '+' :: s => (natural? s).map .ofNat
  | '-' :: s => (natural? s).map fun n => -.ofNat n
  | s => (natural? s).map .ofNat

/-- Integers have 64 bits. -/
def inRange (n : Int) : Bool :=
  -0x8000000000000000 ≤ n && n < 0x8000000000000000

/-! ## Values and settings -/

def isWordChar (c : Char) : Bool :=
  c.isAlphanum || c == '_' || c == '-' || c == '+'

def scalar? (s : List Char) : Option (Scalar × List Char) :=
  match string? s with
  | some (text, rest) => some (.str (String.ofList text), rest)
  | none =>
    let word := s.takeWhile isWordChar
    let rest := s.dropWhile isWordChar
    if word = "true".toList then some (.bool true, rest)
    else if word = "false".toList then some (.bool false, rest)
    else ((integer? word).filter inRange).map fun n => (.int n, rest)

/-- The items of an array up to its closing bracket, after which the rest starts. A comma may follow
the last item. -/
def items? (s : List Char) : Option (List Scalar × List Char) :=
  match skipLines s with
  | ']' :: rest => some ([], rest)
  | t => do
    let (v, rest) ← scalar? t
    match skipLines rest with
    | ']' :: rest => some ([v], rest)
    | ',' :: rest =>
      if rest.length < s.length then
        let (vs, rest) ← items? rest
        some (v :: vs, rest)
      else none
    | _ => none
termination_by s.length

def value? : Reader Value
  | '[' :: s => (items? s).map fun (items, rest) => (.array items, rest)
  | s => (scalar? s).map fun (v, rest) => (.scalar v, rest)

def isKeyChar (c : Char) : Bool :=
  c.isAlphanum || c == '_' || c == '-'

/-- A key: a bare word, or a string on one line. -/
def key? (s : List Char) : Option (String × List Char) :=
  match s with
  | '\x22' :: rest => (line? '\x22' rest).map fun (text, rest) => (String.ofList text, rest)
  | '\x27' :: rest => (line? '\x27' rest).map fun (text, rest) => (String.ofList text, rest)
  | _ =>
    match s.takeWhile isKeyChar with
    | [] => none
    | word => some (String.ofList word, s.dropWhile isKeyChar)

/-- A setting and the lines after it. -/
def setting? (s : List Char) : Option ((String × Value) × List Char) := do
  let (key, rest) ← key? s
  match skipBlanks rest with
  | '=' :: rest =>
    let (value, rest) ← value? (skipBlanks rest)
    return ((key, value), ← lineEnd? rest)
  | _ => none

/-- The settings of a text in their order. -/
def settings? (s : List Char) : Option (List (String × Value)) :=
  if s = [] then some []
  else
    match lineEnd? s with
    | some rest => if rest.length < s.length then settings? rest else none
    | none =>
      match setting? (skipBlanks s) with
      | some (setting, rest) =>
        if rest.length < s.length then (settings? rest).map (setting :: ·) else none
      | none => none
termination_by s.length

/-- A text may start with a byte order mark. -/
def read? (text : String) : Option (List (String × Value)) :=
  match text.toList with
  | '\uFEFF' :: s => settings? s
  | s => settings? s

end MapPlan.Toml
