import MapPlan.Digest.Blake3
import MapPlan.Json.Basic

/-! # Fingerprints

A fingerprint stands for the content of some bytes. What is fed to the digest is kept apart from the
digest itself: a list of parts becomes one list of bytes, in which each part follows its length, so
that parts cannot run into each other. -/

namespace MapPlan.Digest

structure Fingerprint where
  bytes : List UInt8
deriving DecidableEq, Repr

namespace Fingerprint

def hexByte (b : UInt8) : List Char :=
  [Json.hexDigit (b.toNat / 16), Json.hexDigit (b.toNat % 16)]

def hex (f : Fingerprint) : String :=
  String.ofList (f.bytes.flatMap hexByte)

/-- The first eight bytes are enough to tell plans apart on screen. -/
def short (f : Fingerprint) : String :=
  hex ⟨f.bytes.take 8⟩

instance : Ord Fingerprint := ⟨compareOn bytes⟩

instance : Std.TransOrd Fingerprint :=
  inferInstanceAs (Std.TransCmp (compareOn bytes))

instance : Std.LawfulEqOrd Fingerprint where
  eq_of_compare {f g} h := by
    have bytes : f.bytes = g.bytes := Std.LawfulEqOrd.eq_of_compare h
    cases f; cases g; cases bytes; rfl

end Fingerprint

/-- A digest gives bytes their fingerprint. -/
abbrev Hash := List UInt8 → Fingerprint

def blake3 : Hash := fun bytes => ⟨Blake3.hash bytes⟩

/-! ## What is digested -/

def textBytes (s : String) : List UInt8 :=
  s.toUTF8.toList

def jsonBytes (j : Json) : List UInt8 :=
  textBytes j.compact

/-- The lowest bytes of a number, the lowest first. -/
def lowBytes : Nat → Nat → List UInt8
  | 0, _ => []
  | count + 1, n => n.toUInt8 :: lowBytes count (n / 256)

def lengthBytes (n : Nat) : List UInt8 :=
  lowBytes 8 n

/-- Each part behind its length. -/
def frame (parts : List (List UInt8)) : List UInt8 :=
  parts.flatMap fun part => lengthBytes part.length ++ part

end MapPlan.Digest
