/-! # Regular expressions

Regular expressions over characters, the language each one has, and the length of the longest start
of a text that belongs to it, found by derivatives. -/

namespace MapPlan

inductive Regex where
  | void
  | empty
  | char (p : Char → Bool)
  | seq (a b : Regex)
  | alt (a b : Regex)
  | star (a : Regex)

namespace Regex

inductive Matches : Regex → List Char → Prop where
  | empty : Matches .empty []
  | char {p : Char → Bool} {c : Char} : p c → Matches (.char p) [c]
  | seq {a b : Regex} {s t : List Char} : Matches a s → Matches b t → Matches (.seq a b) (s ++ t)
  | altLeft {a b : Regex} {s : List Char} : Matches a s → Matches (.alt a b) s
  | altRight {a b : Regex} {s : List Char} : Matches b s → Matches (.alt a b) s
  | starNil {a : Regex} : Matches (.star a) []
  | starCons {a : Regex} {s t : List Char} :
      Matches a s → Matches (.star a) t → Matches (.star a) (s ++ t)

/-! ## Building expressions -/

def exactly (c : Char) : Regex :=
  .char (· == c)

def anyBut (cs : List Char) : Regex :=
  .char (!cs.contains ·)

/-- The text itself. -/
def text : List Char → Regex
  | [] => .empty
  | [c] => exactly c
  | c :: cs => .seq (exactly c) (text cs)

def plus (a : Regex) : Regex :=
  .seq a (.star a)

def optional (a : Regex) : Regex :=
  .alt .empty a

/-! ## Derivatives

The constructors below leave out branches that cannot match, so that an expression that no longer
matches anything becomes `void` itself and a search can stop there. -/

def seqOf : Regex → Regex → Regex
  | .void, _ => .void
  | _, .void => .void
  | .empty, b => b
  | a, b => .seq a b

def altOf : Regex → Regex → Regex
  | .void, b => b
  | a, .void => a
  | a, b => .alt a b

def nullable : Regex → Bool
  | .void | .char _ => false
  | .empty | .star _ => true
  | .seq a b => a.nullable && b.nullable
  | .alt a b => a.nullable || b.nullable

/-- What may follow `c` in a text of the language. -/
def deriv (c : Char) : Regex → Regex
  | .void | .empty => .void
  | .char p => if p c then .empty else .void
  | .seq a b =>
    let first := seqOf (a.deriv c) b
    if a.nullable then altOf first (b.deriv c) else first
  | .alt a b => altOf (a.deriv c) (b.deriv c)
  | .star a => seqOf (a.deriv c) (.star a)

/-- The length of the longest start of the text that belongs to the language. -/
def longest? : Regex → List Char → Option Nat
  | .void, _ => none
  | r, [] => if r.nullable then some 0 else none
  | r, c :: cs =>
    match (r.deriv c).longest? cs with
    | some n => some (n + 1)
    | none => if r.nullable then some 0 else none

end Regex
end MapPlan
