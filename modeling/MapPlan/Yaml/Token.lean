import MapPlan.Yaml.Scalar

/-! # Tokens of YAML texts

The indentation of a text becomes tokens of its own: block collections start and end where it grows
and shrinks. A key without a mark of its own is known only at the colon behind it, so the scan
remembers where one may have started, at each level of flow collections, and puts the tokens of the
key in there later. -/

namespace MapPlan.Yaml

inductive ScalarStyle where
  | plain
  | quoted
  | literal
  | folded
deriving DecidableEq, Repr

inductive Token where
  | versionDirective
  | tagDirective (handle replacement : String)
  | documentStart
  | documentEnd
  | blockSequence
  | blockMapping
  | blockEnd
  | flowSequence
  | flowSequenceEnd
  | flowMapping
  | flowMappingEnd
  | entry
  | comma
  | key
  | value
  | reference (name : String)
  | anchor (name : String)
  | tag (handle ending : String)
  | scalar (style : ScalarStyle) (text : String)
deriving DecidableEq, Repr

/-- A place where a key without a mark may have started. -/
structure KeyStart where
  /-- How many tokens stand before it. -/
  position : Nat
  /-- Nothing but a key can stand there. -/
  required : Bool
  line : Nat
  index : Nat
  column : Nat

structure Scan where
  rest : List Char
  line : Nat := 0
  column : Nat := 0
  index : Nat := 0
  tokens : Array Token := #[]
  /-- The column of the innermost block collection. -/
  indent : Int := -1
  outer : List Int := []
  /-- May a key without a mark start here? -/
  keyAllowed : Bool := true
  /-- A possible key start outside flow collections, and one in each, the innermost first. -/
  keys : List (Option KeyStart) := [none]

namespace Scan

/-! ## Moving on -/

/-- Move past some text that was read. -/
def advance (s : Scan) (read rest : List Char) : Scan :=
  { s with
    rest
    line := s.line + read.countP isBreak
    column := columnAfter s.column read
    index := s.index + read.length }

def skip (s : Scan) (n : Nat) : Scan :=
  s.advance (s.rest.take n) (s.rest.drop n)

def skipWhile (s : Scan) (p : Char → Bool) : Scan :=
  s.advance (s.rest.takeWhile p) (s.rest.dropWhile p)

/-- Move on to a rest of the text. -/
def moveTo (s : Scan) (rest : List Char) : Scan :=
  s.advance (s.rest.take (s.rest.length - rest.length)) rest

def push (s : Scan) (t : Token) : Scan :=
  { s with tokens := s.tokens.push t }

/-- Add a token made of the next `n` characters. -/
def mark (s : Scan) (n : Nat) (t : Token) : Scan :=
  (s.skip n).push t

def inFlow (s : Scan) : Bool :=
  1 < s.keys.length

def allowKey (s : Scan) (keyAllowed : Bool) : Scan :=
  { s with keyAllowed }

/-! ## Key starts -/

def key? (s : Scan) : Option KeyStart :=
  s.keys.head?.join

def setKey (s : Scan) (k : Option KeyStart) : Scan :=
  { s with keys := k :: s.keys.tail }

/-- Give up the key start of the innermost level, which fails if a key has to stand there. -/
def dropKey? (s : Scan) : Option Scan :=
  if s.key?.any (·.required) then none else some (s.setKey none)

/-- Remember that a key may start here. -/
def saveKey? (s : Scan) : Option Scan :=
  if s.keyAllowed then
    let required := !s.inFlow && s.indent = s.column
    s.dropKey?.map fun t => t.setKey (some ⟨s.tokens.size, required, s.line, s.index, s.column⟩)
  else some s

/-- A key stands on one line and is not longer than 1024 characters. -/
def isStale (s : Scan) (k : KeyStart) : Bool :=
  k.line < s.line || k.index + 1024 < s.index

/-- Give up the key starts that are too far behind. -/
def dropStale? (s : Scan) : Option Scan :=
  if s.keys.any fun k => k.any fun k => k.required && s.isStale k then none
  else some { s with keys := s.keys.map fun k => k.filter (!s.isStale ·) }

/-! ## Indentation -/

/-- Start a block collection at a column that is further in, with its token at `position`. -/
def roll (s : Scan) (column position : Nat) (start : Token) : Scan :=
  if !s.inFlow && s.indent < column then
    { s with
      tokens := s.tokens.insertIdxIfInBounds position start
      indent := column
      outer := s.indent :: s.outer }
  else s

/-- End the block collections that are further in than a column. -/
def unroll (s : Scan) (column : Int) : Scan :=
  if s.inFlow then s
  else
    let rec go (tokens : Array Token) (indent : Int) : List Int → Array Token × Int × List Int
      | [] => (tokens, indent, [])
      | o :: outer =>
        if column < indent then go (tokens.push .blockEnd) o outer else (tokens, indent, o :: outer)
    let (tokens, indent, outer) := go s.tokens s.indent s.outer
    { s with tokens, indent, outer }

/-- Leave all block collections, before a mark between documents. -/
def close? (s : Scan) : Option Scan :=
  ((s.unroll (-1)).dropKey?).map (·.allowKey false)

/-! ## Blanks and comments -/

/-- Move past the blanks and the comment before the next token or the end of the line. A tab is no
indentation. -/
def skipBlanks (s : Scan) : Scan :=
  let s := if s.column = 0 && startsWith '\uFEFF' s.rest then s.skip 1 else s
  let tabs := s.inFlow || !s.keyAllowed
  let s := s.skipWhile fun c => c = ' ' || (tabs && c = '\t')
  if startsWith '#' s.rest then s.skipWhile (!isBreak ·) else s

/-- Move past a line end. The next line may start with a key. -/
def skipBreak (s : Scan) (rest : List Char) : Scan :=
  { s with
    rest
    line := s.line + 1
    column := 0
    index := s.index + 1
    keyAllowed := !s.inFlow || s.keyAllowed }

/-- Move on to the next token. -/
def skipSpaces (s : Scan) : Scan :=
  let t := s.skipBlanks
  match t.rest with
  | [] => t
  | c :: cs =>
    if isBreak c && cs.length < s.rest.length then skipSpaces (t.skipBreak cs) else t
termination_by s.rest.length
decreasing_by simp_all [skipBreak]

/-! ## Tokens -/

/-- A key with a mark of its own. -/
def markedKey? (s : Scan) : Option Scan :=
  if !s.inFlow && !s.keyAllowed then none
  else
    (s.roll s.column s.tokens.size .blockMapping).dropKey?.map fun t =>
      (t.allowKey (!t.inFlow)).mark 1 .key

/-- The colon before a value. If a key may have started before it, one did. -/
def valueMark? (s : Scan) : Option Scan :=
  match s.key? with
  | some k =>
    let t := { s with tokens := s.tokens.insertIdxIfInBounds k.position .key }
    let t := t.roll k.column k.position .blockMapping
    some (((t.setKey none).allowKey false).mark 1 .value)
  | none =>
    if !s.inFlow && !s.keyAllowed then none
    else
      let t := s.roll s.column s.tokens.size .blockMapping
      some ((t.allowKey (!t.inFlow)).mark 1 .value)

/-- The dash before an item. -/
def entryMark? (s : Scan) : Option Scan :=
  if !s.inFlow && !s.keyAllowed then none
  else
    (s.roll s.column s.tokens.size .blockSequence).dropKey?.map fun t =>
      (t.allowKey true).mark 1 .entry

def flowStart? (s : Scan) (t : Token) : Option Scan :=
  s.saveKey?.map fun s => (({ s with keys := none :: s.keys }).allowKey true).mark 1 t

def flowEnd? (s : Scan) (t : Token) : Option Scan :=
  s.dropKey?.map fun s =>
    let keys := if s.inFlow then s.keys.tail else s.keys
    (({ s with keys }).allowKey false).mark 1 t

def comma? (s : Scan) : Option Scan :=
  s.dropKey?.map fun s => (s.allowKey true).mark 1 .comma

/-- An anchor, or a reference to one. -/
def name? (s : Scan) (make : String → Token) : Option Scan := do
  let s ← s.saveKey?
  let s := (s.allowKey false).skip 1
  let name := s.rest.takeWhile isNameChar
  let s := s.skip name.length
  let ends := atSpace s.rest
    || s.rest.head?.any (['?', ':', ',', ']', '\x7d', '%', '@', '\x60'].contains ·)
  if name ≠ [] && ends then some (s.push (make (String.ofList name))) else none

def isTagChar (c : Char) : Bool :=
  isNameChar c || [';', '/', '?', ':', '@', '&', '=', '+', '$', '.', '!', '~', '*', '\x27', '(',
    ')'].contains c

/-- Characters of tags between angle brackets, and of what a handle stands for. -/
def isAddressChar (c : Char) : Bool :=
  isTagChar c || [',', '[', ']'].contains c

/-- The bytes of a tag, some of them as hexadecimal digits behind a percent sign, and the rest of
the text. -/
def tagBytes? (allowed : Char → Bool) (s : List Char) : Option (List UInt8 × List Char) :=
  match s with
  | [] => some ([], [])
  | '%' :: cs => do
    let (n, rest) ← Text.takeHex? 2 cs
    if rest.length ≤ cs.length then
      let (bytes, rest) ← tagBytes? allowed rest
      return (n.toUInt8 :: bytes, rest)
    else none
  | c :: cs =>
    if allowed c then (tagBytes? allowed cs).map fun (bytes, rest) => (c.toUInt8 :: bytes, rest)
    else some ([], c :: cs)
termination_by s.length

def tagText? (allowed : Char → Bool) (s : List Char) : Option (String × List Char) := do
  let (bytes, rest) ← tagBytes? allowed s
  return (← String.fromUTF8? ⟨bytes.toArray⟩, rest)

/-- A tag: a whole one between angle brackets, or a handle between exclamation marks and an
ending. -/
def tag? (s : Scan) : Option Scan := do
  let s ← s.saveKey?
  let s := s.allowKey false
  let (handle, ending, rest) ← read? (s.rest.drop 1)
  let s := s.moveTo rest
  if atSpace s.rest || (s.inFlow && startsWith ',' s.rest) then
    some (s.push (.tag handle ending))
  else none
where
  read? (s : List Char) : Option (String × String × List Char) := do
    if startsWith '<' s then
      let (ending, rest) ← tagText? isAddressChar (s.drop 1)
      if ending ≠ "" && startsWith '>' rest then return ("", ending, rest.drop 1) else none
    else
      let name := s.takeWhile isNameChar
      let after := s.dropWhile isNameChar
      if startsWith '!' after then
        let (ending, rest) ← tagText? isTagChar (after.drop 1)
        if ending = "" then none else return (String.ofList ('!' :: name ++ ['!']), ending, rest)
      else
        let (ending, rest) ← tagText? isTagChar s
        return if ending = "" then ("", "!", rest) else ("!", ending, rest)

def quotedScalar? (s : Scan) (quote : Char) : Option Scan := do
  let s ← s.saveKey?
  let s := (s.allowKey false).skip 1
  let (text, rest) ← quoted? quote s.rest
  return (s.moveTo rest).push (.scalar .quoted (String.ofList text))

def plainScalar? (s : Scan) : Option Scan := do
  let s ← s.saveKey?
  let p ← plain? s.inFlow (s.indent + 1).toNat s.column s.rest
  return ((s.moveTo p.rest).allowKey p.newLine).push (.scalar .plain (String.ofList p.text))

def blockScalar? (s : Scan) (literal : Bool) : Option Scan := do
  let s ← s.dropKey?
  let s := (s.allowKey true).skip 1
  let (text, rest) ← block? literal s.indent s.rest
  let style := if literal then ScalarStyle.literal else .folded
  return (s.moveTo rest).push (.scalar style (String.ofList text))

/-- The words of a directive's line, up to a comment. -/
def directiveWords (line : List Char) : List String :=
  (((line.splitBy fun a b => isBlank a == isBlank b).filter (!·.any isBlank)).map
    String.ofList).takeWhile fun w => !w.startsWith "#"

/-- Is the word an exclamation mark, or a name between two? -/
def isHandle (w : String) : Bool :=
  match w.toList with
  | ['!'] => true
  | '!' :: cs => cs.getLast? = some '!' && cs.dropLast.all isNameChar
  | _ => false

/-- A directive before a document: the version of the format, or a handle of tags. -/
def directive? (s : Scan) : Option Scan := do
  let s ← s.close?
  let line := s.rest.takeWhile (!isBreak ·)
  let t := s.skip line.length
  match directiveWords line with
  | ["%YAML", "1.1"] | ["%YAML", "1.2"] => some (t.push .versionDirective)
  | ["%TAG", handle, replacement] =>
    match tagText? isAddressChar replacement.toList with
    | some (text, []) => if isHandle handle then some (t.push (.tagDirective handle text)) else none
    | _ => none
  | _ => none

/-- May a plain scalar start with this text? -/
def startsPlain (flow : Bool) : List Char → Bool
  | [] => false
  | c :: cs =>
    let indicators := ['-', '?', ':', ',', '[', ']', '\x7b', '\x7d', '#', '&', '*', '!', '|', '>',
      '\x27', '\x22', '%', '@', '\x60']
    (!isSpace c && !indicators.contains c) || (c = '-' && !cs.head?.any isBlank)
      || (!flow && (c = '?' || c = ':') && !atSpace cs)

/-- Add the next token, where the text is at one. -/
def token? (s : Scan) : Option Scan :=
  let flow := s.inFlow
  if s.column = 0 && startsWith '%' s.rest then s.directive?
  else if s.column = 0 && isDocumentMark s.rest then
    s.close?.map fun t =>
      t.mark 3 (if startsWith '-' t.rest then .documentStart else .documentEnd)
  else
    match s.rest with
    | '[' :: _ => s.flowStart? .flowSequence
    | '\x7b' :: _ => s.flowStart? .flowMapping
    | ']' :: _ => s.flowEnd? .flowSequenceEnd
    | '\x7d' :: _ => s.flowEnd? .flowMappingEnd
    | ',' :: _ => s.comma?
    | '*' :: _ => s.name? .reference
    | '&' :: _ => s.name? .anchor
    | '!' :: _ => s.tag?
    | '\x27' :: _ => s.quotedScalar? '\x27'
    | '\x22' :: _ => s.quotedScalar? '\x22'
    | c :: cs =>
      if c = '-' && atSpace cs then s.entryMark?
      else if c = '?' && (flow || atSpace cs) then s.markedKey?
      else if c = ':' && (flow || atSpace cs) then s.valueMark?
      else if c = '|' && !flow then s.blockScalar? true
      else if c = '>' && !flow then s.blockScalar? false
      else if startsPlain flow s.rest then s.plainScalar?
      else none
    | [] => none

/-- Read all that is left. -/
def run? (s : Scan) : Option (List Token) :=
  match s.skipSpaces.dropStale? with
  | none => none
  | some t =>
    let t := t.unroll t.column
    if t.rest = [] then t.close?.map (·.tokens.toList)
    else
      match t.token? with
      | none => none
      | some u => if u.rest.length < s.rest.length then run? u else none
termination_by s.rest.length

end Scan

def tokens? (text : String) : Option (List Token) :=
  (prepare? text).bind fun rest => ({ rest } : Scan).run?

end MapPlan.Yaml
