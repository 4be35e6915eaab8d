import RazorLayout.Text.Basic

/-!
# Reading octets

Octets are read as UTF-8.  Where they are not well formed, each maximal part that could have started
a character means nothing.  The strict reading `decode?` then gives up, and the lenient one, `decode`,
puts one replacement character there.

A file that is read as text has every line ended by a line feed.
-/

namespace RazorLayout

namespace Utf8

/-- The character that stands for octets that mean nothing. -/
def replacement : Char := Char.ofNat 0xFFFD

/-- A character whose first octets have been read. -/
structure Pending where
  /-- How many octets are owed; at least one. -/
  owed : Nat
  /-- The least octet that may come next. -/
  low : Nat
  /-- The greatest octet that may come next. -/
  high : Nat
  /-- The bits so far. -/
  bits : Nat
  deriving DecidableEq, Repr

/-- What an octet is or starts: a character, an octet that means nothing here, or a character with
more octets to come. -/
def start (octet : Nat) : Option Char ⊕ Pending :=
  if octet < 0x80 then .inl (some (Char.ofNat octet))
  else if 0xC2 ≤ octet ∧ octet ≤ 0xDF then .inr ⟨1, 0x80, 0xBF, octet - 0xC0⟩
  else if octet = 0xE0 then .inr ⟨2, 0xA0, 0xBF, 0⟩
  else if octet = 0xED then .inr ⟨2, 0x80, 0x9F, 0xD⟩
  else if 0xE1 ≤ octet ∧ octet ≤ 0xEF then .inr ⟨2, 0x80, 0xBF, octet - 0xE0⟩
  else if octet = 0xF0 then .inr ⟨3, 0x90, 0xBF, 0⟩
  else if 0xF1 ≤ octet ∧ octet ≤ 0xF3 then .inr ⟨3, 0x80, 0xBF, octet - 0xF0⟩
  else if octet = 0xF4 then .inr ⟨3, 0x80, 0x8F, 4⟩
  else .inl none

/-- The characters of octets, with a character that may have been started.  A part that means
nothing is none. -/
def piecesFrom : Option Pending → List Nat → List (Option Char)
  | none, [] => []
  | some _, [] => [none]
  | none, octet :: rest =>
      match start octet with
      | .inl piece => piece :: piecesFrom none rest
      | .inr p => piecesFrom (some p) rest
  | some p, octet :: rest =>
      if p.low ≤ octet ∧ octet ≤ p.high then
        let bits := p.bits * 64 + (octet - 0x80)
        if p.owed ≤ 1 then some (Char.ofNat bits) :: piecesFrom none rest
        else piecesFrom (some ⟨p.owed - 1, 0x80, 0xBF, bits⟩) rest
      else
        match start octet with
        | .inl piece => none :: piece :: piecesFrom none rest
        | .inr q => none :: piecesFrom (some q) rest

/-- The text of octets, provided that they are well formed. -/
def decode? (octets : List Nat) : Option Text :=
  (piecesFrom none octets).mapM id

/-- The text of octets, with a replacement for each part that means nothing. -/
def decode (octets : List Nat) : Text :=
  (piecesFrom none octets).map fun piece => piece.getD replacement

end Utf8

/-- The text with every line ended by a line feed: a carriage return alone or in front of a line
feed ends a line too. -/
def unifyLineEnds : Text → Text
  | '\r' :: '\n' :: cs => '\n' :: unifyLineEnds cs
  | '\r' :: cs => '\n' :: unifyLineEnds cs
  | c :: cs => c :: unifyLineEnds cs
  | [] => []

end RazorLayout
