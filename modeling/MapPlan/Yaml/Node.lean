import MapPlan.Yaml.Token

/-! # Nodes of YAML texts

A text holds one document: a tree of scalars, sequences and mappings. A reference stands for the
node that was given its name before. -/

namespace MapPlan.Yaml

inductive Node where
  | scalar (tag : Option String) (style : ScalarStyle) (text : String)
  | sequence (items : List Node)
  | mapping (entries : List (Node × Node))
deriving Repr, Inhabited

namespace Node

/-- What is written where nothing is. -/
def empty : Node :=
  .scalar none .plain ""

/-- Tokens to come, and the names given so far. -/
structure Feed where
  tokens : List Token
  handles : List (String × String)
  anchors : List (String × Node) := []

abbrev Reader := StateT Feed Option

namespace Reader

def peek : Reader (Option Token) :=
  return (← get).tokens.head?

def drop : Reader Unit :=
  modify fun f => { f with tokens := f.tokens.tail }

/-- Take the next token if it is the given one. -/
def accept (t : Token) : Reader Bool := do
  if (← peek) = some t then
    drop
    return true
  else return false

/-- Is the next token none of the given ones? -/
def atOther (tokens : List Token) : Reader Bool :=
  return (← peek).any (!tokens.contains ·)

def resolveTag (handle ending : String) : Reader String := do
  if handle = "" then return ending
  else return (← (← get).handles.lookup handle) ++ ending

/-- The anchor and the tag before a node, in either order. -/
def properties : Reader (Option String × Option String) := do
  let anchor? : Reader (Option String) := do
    match ← peek with
    | some (.anchor name) => drop; return some name
    | _ => return none
  let tag? : Reader (Option String) := do
    match ← peek with
    | some (.tag handle ending) => drop; return some (← resolveTag handle ending)
    | _ => return none
  match ← anchor? with
  | some name => return (some name, ← tag?)
  | none =>
    let tag ← tag?
    if tag.isSome then return (← anchor?, tag) else return (none, none)

def anchored (name : String) : Reader Node := do
  (← get).anchors.lookup name

def name (anchor : Option String) (node : Node) : Reader Node := do
  match anchor with
  | some a => modify fun f => { f with anchors := (a, node) :: f.anchors }
  | none => pure ()
  return node

/-- Is there a comma before an item, where it is not the first? -/
def separated (first : Bool) : Reader Bool :=
  if first then return true else accept .comma

/-- The tag of a scalar. A single exclamation mark says no more than that there is a scalar. -/
def scalarTag (tag : Option String) : Option String :=
  tag.filter (· ≠ "!")

/-- Where a node stands. -/
inductive Place where
  | flow
  /-- An item of a block sequence. -/
  | item
  /-- A key or value of a block mapping, where a sequence need not be indented. -/
  | field
deriving DecidableEq

mutual

/-- The next node. Nodes in it and their collections use up fuel. -/
def node : Nat → Place → Reader Node
  | 0, _ => failure
  | fuel + 1, place => do
    if let some (.reference a) := ← peek then
      drop
      anchored a
    else
      let (anchor, tag) ← properties
      name anchor (← content fuel place (anchor.isSome || tag.isSome) tag)

/-- A node behind its anchor and tag, which an empty one cannot be without. -/
def content : Nat → Place → Bool → Option String → Reader Node
  | 0, _, _, _ => failure
  | fuel + 1, place, marked, tag => do
    match ← peek with
    | some (.scalar style text) =>
      drop
      return .scalar (scalarTag tag) style text
    | some .flowSequence =>
      drop
      return .sequence (← flowItems fuel true)
    | some .flowMapping =>
      drop
      return .mapping (← flowEntries fuel true)
    | some .entry =>
      if place = .field then return .sequence (← looseItems fuel)
      else if marked then return .scalar tag .plain "" else failure
    | some .blockSequence =>
      if place = .flow then failure
      else
        drop
        return .sequence (← blockItems fuel)
    | some .blockMapping =>
      if place = .flow then failure
      else
        drop
        return .mapping (← blockEntries fuel)
    | _ => if marked then return .scalar tag .plain "" else failure

/-- A node, or an empty one where one of the given tokens comes. -/
def nodeUnless : Nat → Place → List Token → Reader Node
  | 0, _, _ => failure
  | fuel + 1, place, ends => do
    if ← atOther ends then node fuel place else return empty

/-- The items of a block sequence, and its end. -/
def blockItems : Nat → Reader (List Node)
  | 0 => failure
  | fuel + 1 => do
    if ← accept .entry then
      let item ← nodeUnless fuel .item [.entry, .blockEnd]
      return item :: (← blockItems fuel)
    else if ← accept .blockEnd then return []
    else failure

/-- The items of a sequence that is not indented. -/
def looseItems : Nat → Reader (List Node)
  | 0 => failure
  | fuel + 1 => do
    if ← accept .entry then
      let item ← nodeUnless fuel .item [.entry, .key, .value, .blockEnd]
      return item :: (← looseItems fuel)
    else return []

/-- The entries of a block mapping, and its end. -/
def blockEntries : Nat → Reader (List (Node × Node))
  | 0 => failure
  | fuel + 1 => do
    let ends := [Token.key, .value, .blockEnd]
    if ← accept .key then
      let key ← nodeUnless fuel .field ends
      let value ← if ← accept .value then nodeUnless fuel .field ends else pure empty
      return (key, value) :: (← blockEntries fuel)
    else if ← accept .blockEnd then return []
    else failure

/-- The items of a flow sequence, and its end. An item may be a mapping of one entry. -/
def flowItems : Nat → Bool → Reader (List Node)
  | 0, _ => failure
  | fuel + 1, first => do
    if ← accept .flowSequenceEnd then return []
    else if !(← separated first) then failure
    else if ← accept .flowSequenceEnd then return []
    else
      let ends := [Token.comma, .flowSequenceEnd]
      let item ←
        if ← accept .key then
          let key ← nodeUnless fuel .flow (.value :: ends)
          let value ← if ← accept .value then nodeUnless fuel .flow ends else pure empty
          pure (Node.mapping [(key, value)])
        else node fuel .flow
      return item :: (← flowItems fuel false)

/-- The entries of a flow mapping, and its end. -/
def flowEntries : Nat → Bool → Reader (List (Node × Node))
  | 0, _ => failure
  | fuel + 1, first => do
    if ← accept .flowMappingEnd then return []
    else if !(← separated first) then failure
    else if ← accept .flowMappingEnd then return []
    else
      let ends := [Token.comma, .flowMappingEnd]
      let entry ←
        if ← accept .key then
          let key ← nodeUnless fuel .flow (.value :: ends)
          let value ← if ← accept .value then nodeUnless fuel .flow ends else pure empty
          pure (key, value)
        else pure (← node fuel .flow, empty)
      return entry :: (← flowEntries fuel false)

end

end Reader

/-! ## Documents -/

/-- The directives before a document; each handle is defined once. -/
def directives? (version : Bool) (handles : List (String × String)) :
    List Token → Option (List (String × String) × List Token)
  | .versionDirective :: tokens => if version then none else directives? true handles tokens
  | .tagDirective handle replacement :: tokens =>
    if (handles.lookup handle).isSome then none
    else directives? version ((handle, replacement) :: handles) tokens
  | tokens => some (handles, tokens)

/-- The handles that need no directive; a directive may define them otherwise. -/
def standardHandles : List (String × String) :=
  [("!", "!"), ("!!", "tag:yaml.org,2002:")]

/-- The document of a text. The outer answer is none where the text is malformed or holds more than
one document, the inner where it holds none. -/
def read? (text : String) : Option (Option Node) := do
  let tokens ← tokens? text
  let (handles, rest) ← directives? false [] tokens
  let explicit := rest.head? = some .documentStart
  if rest = [] && tokens = [] then return none
  else if rest.length < tokens.length && !explicit then none
  else
    let rest := if explicit then rest.tail else rest
    let feed : Feed := { tokens := rest, handles := handles ++ standardHandles }
    let ends := [none, some Token.documentEnd, some .documentStart]
    let (node, feed) ←
      if explicit && ends.contains rest.head? then some (empty, feed)
      else (Reader.node (4 * rest.length + 4) .item).run feed
    if feed.tokens.all (· = .documentEnd) then some (some node) else none

end Node
end MapPlan.Yaml
