import MapPlan.Json.Basic
import MapPlan.Text.Hex

/-! # Reading JSON

A strict reader: one value, with blanks around it and nothing else. Numbers are whole, since no
document here has others. The fields of an object keep their order, repeated names included. -/

namespace MapPlan.Json

/-- A reader takes a value off the start of a text. -/
abbrev Reader (α : Type) := List Char → Option (α × List Char)

namespace Reader

def isBlank (c : Char) : Bool :=
  c == ' ' || c == '\t' || c == '\n' || c == '\r'

def skipBlanks (s : List Char) : List Char :=
  s.dropWhile isBlank

/-- The rest of a text that starts with a given one. -/
def after? (start s : List Char) : Option (List Char) :=
  if start.isPrefixOf s then some (s.drop start.length) else none

/-! ## Strings -/

def highSurrogate (n : Nat) : Bool :=
  0xD800 ≤ n && n < 0xDC00

def lowSurrogate (n : Nat) : Bool :=
  0xDC00 ≤ n && n < 0xE000

/-- A character by its code, after the `u` of an escape. Two escapes that make up a surrogate pair
stand for one character. -/
def codeEscape? : Reader Char := fun s => do
  let (n, rest) ← Text.takeHex? 4 s
  if highSurrogate n then
    let (low, rest) ← Text.takeHex? 4 (← after? ['\\', 'u'] rest)
    if lowSurrogate low then
      return (← Text.charOfCode? (0x10000 + (n - 0xD800) * 0x400 + (low - 0xDC00)), rest)
    else none
  else return (← Text.charOfCode? n, rest)

/-- The character that an escape stands for, after its backslash. -/
def escape? : Reader Char
  | '\x22' :: s => some ('\x22', s)
  | '\\' :: s => some ('\\', s)
  | '/' :: s => some ('/', s)
  | 'b' :: s => some ('\x08', s)
  | 'f' :: s => some ('\x0C', s)
  | 'n' :: s => some ('\n', s)
  | 'r' :: s => some ('\r', s)
  | 't' :: s => some ('\t', s)
  | 'u' :: s => codeEscape? s
  | _ => none

/-- The rest of a string after its first quote. -/
def stringTail? (s : List Char) : Option (List Char × List Char) :=
  match s with
  | [] => none
  | c :: cs =>
    if c = '\x22' then some ([], cs)
    else if c = '\\' then
      match escape? cs with
      | some (d, rest) =>
        if rest.length ≤ cs.length then
          (stringTail? rest).map fun (text, rest) => (d :: text, rest)
        else none
      | none => none
    else if c.toNat < 0x20 then none
    else (stringTail? cs).map fun (text, rest) => (c :: text, rest)
termination_by s.length

def string? : Reader String
  | '\x22' :: s => (stringTail? s).map fun (text, rest) => (String.ofList text, rest)
  | _ => none

/-! ## Numbers -/

/-- The number that decimal digits write. -/
def number (digits : List Char) : Nat :=
  digits.foldl (fun n c => 10 * n + (c.toNat - 0x30)) 0

/-- A number other than zero does not start with a zero. -/
def natural? (s : List Char) : Option (Nat × List Char) :=
  match s.takeWhile Char.isDigit with
  | [] | '0' :: _ :: _ => none
  | digits => some (number digits, s.dropWhile Char.isDigit)

def integer? : Reader Int
  | '-' :: s => (natural? s).map fun (n, rest) => (-n, rest)
  | s => (natural? s).map fun (n, rest) => (n, rest)

/-! ## Values -/

mutual

/-- The value at the start of a text. Items and levels of nesting use up fuel, and the length of the
text is enough. -/
def value? (fuel : Nat) (s : List Char) : Option (Json × List Char) :=
  match fuel with
  | 0 => none
  | fuel + 1 =>
    match s with
    | '\x22' :: _ => (string? s).map fun (text, rest) => (.str text, rest)
    | '[' :: rest =>
      match skipBlanks rest with
      | ']' :: rest => some (.arr [], rest)
      | rest => (items? fuel rest).map fun (items, rest) => (.arr items, rest)
    | '\x7b' :: rest =>
      match skipBlanks rest with
      | '\x7d' :: rest => some (.obj [], rest)
      | rest => (fields? fuel rest).map fun (fields, rest) => (.obj fields, rest)
    | _ =>
      (after? absent s).map (.null, ·)
        <|> (after? (bit true) s).map (.bool true, ·)
        <|> (after? (bit false) s).map (.bool false, ·)
        <|> (integer? s).map fun (n, rest) => (.int n, rest)

/-- One item or more, and the bracket after them. -/
def items? (fuel : Nat) (s : List Char) : Option (List Json × List Char) :=
  match fuel with
  | 0 => none
  | fuel + 1 => do
    let (item, rest) ← value? fuel (skipBlanks s)
    match skipBlanks rest with
    | ']' :: rest => some ([item], rest)
    | ',' :: rest =>
      let (items, rest) ← items? fuel rest
      return (item :: items, rest)
    | _ => none

/-- One field or more, and the brace after them. -/
def fields? (fuel : Nat) (s : List Char) : Option (List (String × Json) × List Char) :=
  match fuel with
  | 0 => none
  | fuel + 1 => do
    let (name, rest) ← string? (skipBlanks s)
    match skipBlanks rest with
    | ':' :: rest =>
      let (value, rest) ← value? fuel (skipBlanks rest)
      match skipBlanks rest with
      | '\x7d' :: rest => some ([(name, value)], rest)
      | ',' :: rest =>
        let (fields, rest) ← fields? fuel rest
        return ((name, value) :: fields, rest)
      | _ => none
    | _ => none

end

end Reader

open Reader in
/-- The value that a text writes. -/
def read? (text : String) : Option Json :=
  let s := text.toList
  match value? (s.length + 1) (skipBlanks s) with
  | some (j, rest) => if skipBlanks rest = [] then some j else none
  | none => none

end MapPlan.Json
