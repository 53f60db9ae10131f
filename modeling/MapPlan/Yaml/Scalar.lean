import MapPlan.Text.Hex
import MapPlan.Yaml.Character

/-! # Scalars of YAML texts

Plain, quoted and block scalars, each read off the start of a text into the string it stands for.
Line ends inside a scalar are folded, but for those of literal blocks. -/

namespace MapPlan.Yaml

/-! ## Folding -/

/-- What blanks and line ends between two words of a scalar stand for. A single line end is a space;
of several, the first is left out. -/
def fold (spaces : List Char) : List Char :=
  match spaces.filter isBreak with
  | [] => spaces
  | b :: more =>
    if b = '\n' then
      if more = [] then [' '] else more
    else b :: more

/-- The column after some text that starts in a given one. -/
def columnAfter (column : Nat) (s : List Char) : Nat :=
  s.foldl (fun n c => if isBreak c then 0 else n + 1) column

/-! ## Quoted scalars -/

/-- The character that an escape stands for, after its backslash. -/
def escape? : List Char → Option (Char × List Char)
  | '0' :: s => some ('\x00', s)
  | 'a' :: s => some ('\x07', s)
  | 'b' :: s => some ('\x08', s)
  | 't' :: s | '\t' :: s => some ('\t', s)
  | 'n' :: s => some ('\n', s)
  | 'v' :: s => some ('\x0B', s)
  | 'f' :: s => some ('\x0C', s)
  | 'r' :: s => some ('\r', s)
  | 'e' :: s => some ('\x1B', s)
  | ' ' :: s => some (' ', s)
  | '\x22' :: s => some ('\x22', s)
  | '/' :: s => some ('/', s)
  | '\\' :: s => some ('\\', s)
  | 'N' :: s => some ('\u0085', s)
  | '_' :: s => some ('\u00A0', s)
  | 'L' :: s => some ('\u2028', s)
  | 'P' :: s => some ('\u2029', s)
  | 'x' :: s => code? 2 s
  | 'u' :: s => code? 4 s
  | 'U' :: s => code? 8 s
  | _ => none
where
  code? (digits : Nat) (s : List Char) : Option (Char × List Char) := do
    let (n, rest) ← Text.takeHex? digits s
    return (← Text.charOfCode? n, rest)

/-- The rest of a quoted scalar after its first quote, and the text after it. A mark between
documents cannot stand inside. -/
def quoted? (quote : Char) (s : List Char) : Option (List Char × List Char) :=
  match s with
  | [] => none
  | c :: cs =>
    if isSpace c then
      let spaces := c :: cs.takeWhile isSpace
      have : (cs.dropWhile isSpace).length ≤ cs.length := (List.dropWhile_suffix _).length_le
      if columnAfter 1 spaces = 0 && isDocumentMark (cs.dropWhile isSpace) then none
      else
        (quoted? quote (cs.dropWhile isSpace)).map fun (text, after) =>
          (fold spaces ++ text, after)
    else if c = quote then
      if quote = '\x27' && startsWith quote cs then
        (quoted? quote (cs.drop 1)).map fun (text, after) => (quote :: text, after)
      else some ([], cs)
    else if c = '\\' && quote = '\x22' then
      match cs with
      | b :: after =>
        if isBreak b then
          let spaces := after.takeWhile isSpace
          have : (after.dropWhile isSpace).length ≤ after.length :=
            (List.dropWhile_suffix _).length_le
          if columnAfter 0 spaces = 0 && isDocumentMark (after.dropWhile isSpace) then none
          else
            (quoted? quote (after.dropWhile isSpace)).map fun (text, rest) =>
              (spaces.filter isBreak ++ text, rest)
        else
          match escape? cs with
          | some (d, rest) =>
            if rest.length ≤ after.length then
              (quoted? quote rest).map fun (text, after) => (d :: text, after)
            else none
          | none => none
      | [] => none
    else (quoted? quote cs).map fun (text, after) => (c :: text, after)
termination_by s.length

/-! ## Plain scalars -/

/-- A plain scalar, and where it ends. -/
structure Plain where
  text : List Char
  rest : List Char
  /-- Is the end on a later line than the last word? -/
  newLine : Bool

/-- Does a plain scalar end before this text? -/
def endsPlain (flow : Bool) : List Char → Bool
  | [] => true
  | c :: cs => (c = ':' && atSpace cs) || (flow && isFlowIndicator c)

/-- Is a tab used to indent a line, that is, left of the column where it could be text? -/
def tabIndents (indent column : Nat) (newLine : Bool) : List Char → Bool
  | [] => false
  | c :: cs =>
    if isBreak c then tabIndents indent 0 true cs
    else (newLine && c = '\t' && column < indent) || tabIndents indent (column + 1) newLine cs

/-- A plain scalar from one of its words on. Its lines are indented by `indent` at least, unless it
stands in a flow collection. -/
def plain? (flow : Bool) (indent column : Nat) (s : List Char) : Option Plain :=
  match s with
  | [] => some ⟨[], [], false⟩
  | c :: cs =>
    if isSpace c then
      let spaces := c :: cs.takeWhile isSpace
      let next := columnAfter column spaces
      have : (cs.dropWhile isSpace).length ≤ cs.length := (List.dropWhile_suffix _).length_le
      let stop : Plain := ⟨[], cs.dropWhile isSpace, spaces.any isBreak⟩
      if tabIndents indent column false spaces then none
      else if (!flow && next < indent) || (next = 0 && isDocumentMark stop.rest)
          || startsWith '#' stop.rest then some stop
      else
        match plain? flow indent next (cs.dropWhile isSpace) with
        | none => none
        | some p => some (if p.text = [] then stop else { p with text := fold spaces ++ p.text })
    else if flow && c = ':' && cs.head?.any (fun d => isFlowIndicator d || d = '?') then none
    else if endsPlain flow s then some ⟨[], s, false⟩
    else (plain? flow indent (column + 1) cs).map fun p => { p with text := c :: p.text }
termination_by s.length

/-! ## Block scalars -/

inductive Chomping where
  /-- No line end at the end. -/
  | strip
  /-- One. -/
  | clip
  /-- All. -/
  | keep
deriving DecidableEq, Repr

/-- The indicators of a block scalar, in either order, and the text after them. -/
def blockHeader? (s : List Char) : Option ((Chomping × Nat) × List Char) :=
  match chomping? s with
  | some (chomping, rest) => (increment? rest).map fun (n, rest) => ((chomping, n), rest)
  | none =>
    (increment? s).map fun (n, rest) =>
      match chomping? rest with
      | some (chomping, rest) => ((chomping, n), rest)
      | none => ((.clip, n), rest)
where
  chomping? : List Char → Option (Chomping × List Char)
    | '-' :: s => some (.strip, s)
    | '+' :: s => some (.keep, s)
    | _ => none
  /-- The indentation that is asked for; without a digit, the first line decides. -/
  increment? : List Char → Option (Nat × List Char)
    | '0' :: _ => none
    | c :: s => some (if c.isDigit then (c.toNat - 0x30, s) else (0, c :: s))
    | [] => some (0, [])

/-- What follows the line of a block scalar's header. -/
def headerEnd? (s : List Char) : Option (List Char) :=
  let s := s.dropWhile isBlank
  let s := if startsWith '#' s then s.dropWhile (!isBreak ·) else s
  match s with
  | [] => some []
  | c :: rest => if isBreak c then some rest else none

/-- Empty lines and the indentation of the line after them. -/
structure Indentation where
  breaks : List Char
  column : Nat
  /-- The widest indentation among these lines. -/
  widest : Nat
  rest : List Char

/-- Read indentation up to the column `indent`, or as far as it goes where that is 0. -/
def indentation? (indent column : Nat) : List Char → Option Indentation
  | ' ' :: s =>
    if indent = 0 || column < indent then
      (indentation? indent (column + 1) s).map fun i =>
        { i with widest := max i.widest (column + 1) }
    else some ⟨[], column, column, ' ' :: s⟩
  | c :: s =>
    if c = '\t' && (indent = 0 || column < indent) then none
    else if isBreak c then
      (indentation? indent 0 s).map fun i =>
        { i with breaks := c :: i.breaks, widest := max i.widest column }
    else some ⟨[], column, column, c :: s⟩
  | [] => some ⟨[], column, column, []⟩

/-- The lines of a block scalar, with the line ends that end it kept apart. -/
structure Block where
  text : List Char
  lastBreak : List Char
  emptyLines : List Char
  rest : List Char

/-- What joins a line of a block to the one before it. Lines that start with a blank are not
folded. -/
def joint (literal : Bool) (lastBreak emptyLines : List Char) (afterBlank atBlank : Bool) :
    List Char :=
  if !literal && startsWith '\n' lastBreak && !afterBlank && !atBlank then
    if emptyLines = [] then [' '] else emptyLines
  else lastBreak ++ emptyLines

/-- The lines of a block scalar from the indented start of one on. -/
def blockLines? (literal : Bool) (indent : Nat) (lastBreak : List Char) (afterBlank : Bool)
    (i : Indentation) : Option Block :=
  let line := i.rest.takeWhile (!isBreak ·)
  let after := i.rest.dropWhile (!isBreak ·)
  if i.column = indent && line ≠ [] then
    let atBlank := i.rest.head?.any isBlank
    let start := if after = [] then i.column + line.length else 0
    match indentation? indent start (after.drop 1) with
    | none => none
    | some next =>
      if next.rest.length < i.rest.length then
        (blockLines? literal indent (after.take 1) atBlank next).map fun b =>
          { b with text := joint literal lastBreak i.breaks afterBlank atBlank ++ line ++ b.text }
      else none
  else some ⟨[], lastBreak, i.breaks, i.rest⟩
termination_by i.rest.length

/-- A block scalar after its first indicator, in a collection that is indented by `parent`, and the
text after it. -/
def block? (literal : Bool) (parent : Int) (s : List Char) : Option (List Char × List Char) := do
  let ((chomping, increment), rest) ← blockHeader? s
  let rest ← headerEnd? rest
  let asked := if increment = 0 then 0 else (max parent 0).toNat + increment
  let first ← indentation? asked 0 rest
  let indent := if asked = 0 then max first.widest (max (parent + 1) 1).toNat else asked
  let b ← blockLines? literal indent [] false first
  let tail :=
    match chomping with
    | .strip => []
    | .clip => b.lastBreak
    | .keep => b.lastBreak ++ b.emptyLines
  return (b.text ++ tail, b.rest)

end MapPlan.Yaml
