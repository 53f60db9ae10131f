/-! # JSON values

Values with the fields of an object in order, and their two written forms: compact, without any
blanks, and indented by two spaces a level. -/

namespace MapPlan

inductive Json where
  | null
  | bool (b : Bool)
  | int (n : Int)
  | str (s : String)
  | arr (items : List Json)
  | obj (fields : List (String × Json))
deriving Repr, Inhabited

namespace Json

/-! ## Scalars -/

def hexDigit (n : Nat) : Char :=
  if n < 10 then Char.ofNat (0x30 + n) else Char.ofNat (0x57 + n)

/-- A character inside a string. Quotes, backslashes and control characters are escaped, by a letter
where there is one. -/
def escape (c : Char) : List Char :=
  if c = '\x22' then ['\\', '\x22']
  else if c = '\\' then ['\\', '\\']
  else if c = '\x08' then ['\\', 'b']
  else if c = '\x0C' then ['\\', 'f']
  else if c = '\n' then ['\\', 'n']
  else if c = '\r' then ['\\', 'r']
  else if c = '\t' then ['\\', 't']
  else if c.toNat < 0x20 then
    ['\\', 'u', '0', '0', hexDigit (c.toNat / 16), hexDigit (c.toNat % 16)]
  else [c]

def quoted (s : String) : List Char :=
  '\x22' :: s.toList.flatMap escape ++ ['\x22']

def decimal (n : Int) : List Char :=
  match n with
  | .ofNat n => Nat.toDigits 10 n
  | .negSucc n => '-' :: Nat.toDigits 10 (n + 1)

def bit (b : Bool) : List Char :=
  if b then ['t', 'r', 'u', 'e'] else ['f', 'a', 'l', 's', 'e']

def absent : List Char := ['n', 'u', 'l', 'l']

/-! ## The compact form -/

mutual

def compactChars : Json → List Char
  | .null => absent
  | .bool b => bit b
  | .int n => decimal n
  | .str s => quoted s
  | .arr items => '[' :: compactItems items
  | .obj fields => '\x7b' :: compactFields fields

/-- The items of an array with commas between them, and the closing bracket. -/
def compactItems : List Json → List Char
  | [] => [']']
  | [j] => compactChars j ++ [']']
  | j :: k :: rest => compactChars j ++ ',' :: compactItems (k :: rest)

def compactFields : List (String × Json) → List Char
  | [] => ['\x7d']
  | [(name, j)] => quoted name ++ ':' :: compactChars j ++ ['\x7d']
  | (name, j) :: field :: rest =>
    quoted name ++ ':' :: compactChars j ++ ',' :: compactFields (field :: rest)

end

def compact (j : Json) : String :=
  String.ofList j.compactChars

/-! ## The indented form -/

/-- A line end and the blanks at the start of the next line. -/
def lineAt (level : Nat) : List Char :=
  '\n' :: List.replicate (2 * level) ' '

mutual

def indentedChars (level : Nat) : Json → List Char
  | .null => absent
  | .bool b => bit b
  | .int n => decimal n
  | .str s => quoted s
  | .arr [] => ['[', ']']
  | .arr items => '[' :: indentedItems level items
  | .obj [] => ['\x7b', '\x7d']
  | .obj fields => '\x7b' :: indentedFields level fields

def indentedItems (level : Nat) : List Json → List Char
  | [] => lineAt level ++ [']']
  | [j] => lineAt (level + 1) ++ indentedChars (level + 1) j ++ lineAt level ++ [']']
  | j :: k :: rest =>
    lineAt (level + 1) ++ indentedChars (level + 1) j ++ ',' :: indentedItems level (k :: rest)

def indentedFields (level : Nat) : List (String × Json) → List Char
  | [] => lineAt level ++ ['\x7d']
  | [(name, j)] =>
    lineAt (level + 1) ++ quoted name ++ ':' :: ' ' :: indentedChars (level + 1) j
      ++ lineAt level ++ ['\x7d']
  | (name, j) :: field :: rest =>
    lineAt (level + 1) ++ quoted name ++ ':' :: ' ' :: indentedChars (level + 1) j
      ++ ',' :: indentedFields level (field :: rest)

end

def indented (j : Json) : String :=
  String.ofList (j.indentedChars 0)

/-! ## Building values -/

def ofOption {α : Type} (f : α → Json) : Option α → Json
  | none => .null
  | some a => f a

def strings (l : List String) : Json :=
  .arr (l.map .str)

end Json
end MapPlan
