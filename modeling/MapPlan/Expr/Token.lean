import MapPlan.Expr.Literal
import MapPlan.Regex
import MapPlan.Text.Identifier

/-! # Tokens

The token rules are a table of regular expressions, and the tokenizer takes the rule with the
longest match again and again. A match of an interpolated opener is extended to the end of its
literal. Nothing is skipped: the texts of the tokens concatenate to the text. -/

namespace MapPlan.Expr

inductive TokenKind where
  | whitespace
  | lineComment
  | blockComment
  /-- A comment that never closes, which is an error. -/
  | unterminatedComment
  | str
  | verbatimStr
  | interpolatedStr
  | interpolatedVerbatimStr
  | char
  | identifier
  | number
  | arrow
  | dot
  | openParen
  | closeParen
  | comma
  | punct
deriving DecidableEq, Repr

namespace TokenKind

/-- Literal text without holes. -/
def isLiteral : TokenKind → Bool
  | .str | .verbatimStr | .char => true
  | _ => false

def isInterpolated : TokenKind → Bool
  | .interpolatedStr | .interpolatedVerbatimStr => true
  | _ => false

/-- Tokens that stand between others without meaning. -/
def isTrivia : TokenKind → Bool
  | .whitespace | .lineComment | .blockComment => true
  | _ => false

end TokenKind

/-! ## Rules -/

namespace TokenRule

open Regex

def spaces : List Char := [' ', '\t', '\r', '\n', '\x0C']

def lineEnd : List Char := ['\n']

def whitespace : Regex := plus (.char (spaces.contains ·))

def lineComment : Regex := .seq (text ['/', '/']) (.star (anyBut lineEnd))

/-- What a block comment holds after its opener, short of stars that lead to its end. -/
def commentBody : Regex :=
  .star (.alt (anyBut ['*']) (.seq (plus (exactly '*')) (anyBut ['*', '/'])))

def unterminatedComment : Regex :=
  .seq (text ['/', '*']) (.seq commentBody (.star (exactly '*')))

def blockComment : Regex :=
  .seq (text ['/', '*']) (.seq commentBody (.seq (plus (exactly '*')) (exactly '/')))

def escapePair : Regex := .seq (exactly '\\') (anyBut lineEnd)

def str : Regex :=
  .seq (exactly '\x22') (.seq (.star (.alt (anyBut ['\x22', '\\', '\n']) escapePair))
    (exactly '\x22'))

def verbatimStr : Regex :=
  .seq (text ['@', '\x22']) (.seq (.star (.alt (anyBut ['\x22']) (text ['\x22', '\x22'])))
    (exactly '\x22'))

def interpolatedStr : Regex := text ['$', '\x22']

def interpolatedVerbatimStr : Regex :=
  .alt (text ['$', '@', '\x22']) (text ['@', '$', '\x22'])

def char : Regex :=
  .seq (exactly '\x27') (.seq (plus (.alt (anyBut ['\x27', '\\', '\n']) escapePair))
    (exactly '\x27'))

def identifier : Regex :=
  .seq (optional (exactly '@'))
    (.seq (.char fun c => Text.isIdentifierStart c || c == '_')
      (.star (.char Text.isIdentifierContinue)))

def number : Regex :=
  .seq (.char Char.isDigit) (.star (.char fun c => c.isAlphanum || c == '_'))

/-- Any character that starts no other token and continues no identifier. -/
def punct : Regex :=
  .char fun c => !(spaces ++ ['\x22', '\x27', '@', '$', '.', '(', ')', ',']).contains c
    && !Text.isIdentifierContinue c

end TokenRule

def TokenKind.rule : TokenKind → Regex
  | .whitespace => TokenRule.whitespace
  | .lineComment => TokenRule.lineComment
  | .blockComment => TokenRule.blockComment
  | .unterminatedComment => TokenRule.unterminatedComment
  | .str => TokenRule.str
  | .verbatimStr => TokenRule.verbatimStr
  | .interpolatedStr => TokenRule.interpolatedStr
  | .interpolatedVerbatimStr => TokenRule.interpolatedVerbatimStr
  | .char => TokenRule.char
  | .identifier => TokenRule.identifier
  | .number => TokenRule.number
  | .arrow => .text ['=', '>']
  | .dot => .exactly '.'
  | .openParen => .exactly '('
  | .closeParen => .exactly ')'
  | .comma => .exactly ','
  | .punct => TokenRule.punct

def TokenKind.all : List TokenKind :=
  [.whitespace, .lineComment, .blockComment, .unterminatedComment, .str, .verbatimStr,
   .interpolatedStr, .interpolatedVerbatimStr, .char, .identifier, .number, .arrow, .dot,
   .openParen, .closeParen, .comma, .punct]

/-- The longest of the matches at the start of a text, among the given rules. -/
def longestMatch? (s : List Char) : List TokenKind → Option (TokenKind × Nat)
  | [] => none
  | kind :: kinds =>
    match kind.rule.longest? s, longestMatch? s kinds with
    | none, other => other
    | some n, none => some (kind, n)
    | some n, some (kind', n') => if n' ≤ n then some (kind, n) else some (kind', n')

/-! ## Tokenizing -/

/-- A token with its text in pieces; only an interpolated token has holes among them. -/
structure Token where
  kind : TokenKind
  pieces : List (Piece Char)
deriving DecidableEq, Repr

namespace Token

def text (t : Token) : List Char :=
  Piece.flatten t.pieces

/-- The token at the start of the text, and the rest. There is none where no rule matches, where a
comment stays open, where an interpolated literal or one of its holes does, and where a verbatim
string would end between two quotes: those are a doubled quote inside a string that stays open. -/
def first? (s : List Char) : Option (Token × List Char) :=
  match longestMatch? s TokenKind.all with
  | none | some (.unterminatedComment, _) => none
  | some (kind, n) =>
    if kind.isInterpolated then
      (Literal.string? s).map fun (pieces, rest) => (⟨kind, pieces⟩, rest)
    else if kind = .verbatimStr && (s.drop n).head? = some '\x22' then none
    else some (⟨kind, [.text (s.take n)]⟩, s.drop n)

end Token

/-- The byte at which no token starts. -/
structure LexError where
  offset : Nat
deriving DecidableEq, Repr

def LexError.message (e : LexError) : String :=
  s!"cannot tokenize expression at byte {e.offset}"

/-- The tokens of a text, one after the other from its start to its end. -/
def tokenize (s : List Char) : Except LexError (List Token) :=
  if s = [] then .ok []
  else
    match Token.first? s with
    | none => .error ⟨0⟩
    | some (token, rest) =>
      if rest.length < s.length then
        match tokenize rest with
        | .ok tokens => .ok (token :: tokens)
        | .error e => .error ⟨Text.byteSize token.text + e.offset⟩
      else .error ⟨0⟩
termination_by s.length

/-- The bytes at which each of consecutive tokens starts and ends. -/
def Token.spans (tokens : List Token) : List (Nat × Nat) :=
  Text.spansFrom 0 (tokens.map text)

end MapPlan.Expr
