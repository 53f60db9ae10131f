/-! # Characters of YAML texts -/

namespace MapPlan.Yaml

/-- May the character stand in a text? -/
def isAllowed (c : Char) : Bool :=
  let n := c.toNat
  n == 0x9 || n == 0xA || n == 0xD || (0x20 ≤ n && n ≤ 0x7E) || n == 0x85
    || (0xA0 ≤ n && n ≤ 0xFFFD) || 0x10000 ≤ n

/-- Line ends, all but the separators of lines and of paragraphs, are read as `\n`. -/
def normalizeLines : List Char → List Char
  | '\r' :: '\n' :: s | '\r' :: s | '\x85' :: s => '\n' :: normalizeLines s
  | c :: s => c :: normalizeLines s
  | [] => []

/-- The text to read, without the byte order mark that may precede it. -/
def prepare? (text : String) : Option (List Char) :=
  let s :=
    match text.toList with
    | '\uFEFF' :: s => s
    | s => s
  if s.all isAllowed then some (normalizeLines s) else none

def isBreak (c : Char) : Bool :=
  c == '\n' || c == '\u2028' || c == '\u2029'

def isBlank (c : Char) : Bool :=
  c == ' ' || c == '\t'

def isSpace (c : Char) : Bool :=
  isBlank c || isBreak c

/-- Is the text at its end, or at a blank or a line end? -/
def atSpace : List Char → Bool
  | [] => true
  | c :: _ => isSpace c

def startsWith (c : Char) : List Char → Bool
  | d :: _ => c = d
  | [] => false

/-- Characters of names: of anchors, and of the handles of tags. -/
def isNameChar (c : Char) : Bool :=
  c.isAlphanum || c == '_' || c == '-'

def isFlowIndicator (c : Char) : Bool :=
  [',', '[', ']', '\x7b', '\x7d'].contains c

/-- Is the text, at the start of a line, a mark between documents? -/
def isDocumentMark : List Char → Bool
  | '-' :: '-' :: '-' :: s | '.' :: '.' :: '.' :: s => atSpace s
  | _ => false

end MapPlan.Yaml
