import RazorLayout.Text.Quoted

/-!
# Sets of ASCII characters

The character classes that the grammar is written in.  Each is a decidable set of characters that
holds ASCII characters only, so a character beyond ASCII is in none of them.

* `letters`, `digits`, `spaces`, `quotes`: the basic classes;
* `identifierStarts`, `identifierChars`: identifiers of the embedded language;
* `nameChars`: names of tags and attributes.
-/

namespace RazorLayout

/-- A set of ASCII characters. -/
structure AsciiSet where
  /-- Whether a character belongs to the set. -/
  holds : Char → Bool
  /-- Only ASCII characters belong to it. -/
  ascii : ∀ c, holds c = true → c.toNat < 128

namespace AsciiSet

section Operations

/-- Whether every character is ASCII. -/
def isAsciiText (cs : Text) : Bool :=
  cs.all fun c => decide (c.toNat < 128)

theorem lt_of_isAsciiText {cs : Text} (h : isAsciiText cs = true) {c : Char}
    (hc : cs.contains c = true) : c.toNat < 128 := by
  simp only [isAsciiText, List.all_eq_true, decide_eq_true_eq] at h
  exact h c (List.contains_iff_mem.1 hc)

/-- The set of the characters of a text, provided that they are all ASCII. -/
def ofText? (cs : Text) : Option AsciiSet :=
  if h : isAsciiText cs = true then some ⟨fun c => cs.contains c, fun _ => lt_of_isAsciiText h⟩
  else none

/-- The refusal of a character beyond ASCII. -/
def refusal : Text :=
  "SmallCharSet only supports ASCII".toList

/-- The characters of both sets. -/
def union (s t : AsciiSet) : AsciiSet where
  holds c := s.holds c || t.holds c
  ascii c h := by
    rcases Bool.or_eq_true _ _ ▸ h with h | h
    · exact s.ascii c h
    · exact t.ascii c h

/-- Whether the text is a single character of the set. -/
def contains (s : AsciiSet) : Text → Bool
  | [c] => s.holds c
  | _ => false

/-- The members, by code. -/
def toText (s : AsciiSet) : Text :=
  ((List.range 128).map Char.ofNat).filter s.holds

/-- The set as it is shown to the reader. -/
def describe (s : AsciiSet) : Text :=
  "SmallCharSet(".toList ++ quoted s.toText ++ [')']

end Operations

end AsciiSet

section Classes

/-- A quote character. -/
def isQuote (c : Char) : Bool :=
  c == '"' || c == '\''

/-- A character that starts an identifier. -/
def isIdentifierStart (c : Char) : Bool :=
  c.isAlpha || c == '_'

/-- A character of an identifier. -/
def isIdentifierChar (c : Char) : Bool :=
  c.isAlpha || c == '_' || c.isDigit

/-- A character of a tag name or an attribute name. -/
def isNameChar (c : Char) : Bool :=
  isIdentifierChar c || c == ':' || c == '.' || c == '-'

theorem lt_of_isUpper {c : Char} (h : c.isUpper = true) : c.toNat < 128 := by
  have hZ : c.val.toNat ≤ 90 := (of_decide_eq_true h).2
  exact Nat.lt_of_le_of_lt hZ (by decide)

theorem lt_of_isLower {c : Char} (h : c.isLower = true) : c.toNat < 128 := by
  have hz : c.val.toNat ≤ 122 := of_decide_eq_true (Bool.and_eq_true_iff.1 h).2
  exact Nat.lt_of_le_of_lt hz (by decide)

theorem lt_of_isAlpha {c : Char} (h : c.isAlpha = true) : c.toNat < 128 := by
  rcases Bool.or_eq_true _ _ ▸ h with h | h
  · exact lt_of_isUpper h
  · exact lt_of_isLower h

theorem lt_of_isDigit {c : Char} (h : c.isDigit = true) : c.toNat < 128 := by
  simp only [Char.isDigit, Bool.and_eq_true, decide_eq_true_eq, UInt32.le_iff_toNat_le] at h
  change c.val.toNat < 128
  have h9 : ('9' : Char).val.toNat = 57 := rfl
  omega

theorem lt_of_isSpace {c : Char} (h : isSpace c = true) : c.toNat < 128 := by
  simp only [isSpace, Bool.or_eq_true, beq_iff_eq, Bool.and_eq_true, decide_eq_true_eq] at h
  rcases h with rfl | h
  · decide
  · omega

theorem lt_of_isQuote {c : Char} (h : isQuote c = true) : c.toNat < 128 := by
  simp only [isQuote, Bool.or_eq_true, beq_iff_eq] at h
  rcases h with rfl | rfl <;> decide

theorem lt_of_isIdentifierStart {c : Char} (h : isIdentifierStart c = true) : c.toNat < 128 := by
  simp only [isIdentifierStart, Bool.or_eq_true, beq_iff_eq] at h
  rcases h with h | rfl
  · exact lt_of_isAlpha h
  · decide

theorem lt_of_isIdentifierChar {c : Char} (h : isIdentifierChar c = true) : c.toNat < 128 := by
  simp only [isIdentifierChar, Bool.or_eq_true, beq_iff_eq] at h
  rcases h with (h | rfl) | h
  · exact lt_of_isAlpha h
  · decide
  · exact lt_of_isDigit h

theorem lt_of_isNameChar {c : Char} (h : isNameChar c = true) : c.toNat < 128 := by
  simp only [isNameChar, Bool.or_eq_true, beq_iff_eq] at h
  rcases h with ((h | rfl) | rfl) | rfl
  · exact lt_of_isIdentifierChar h
  all_goals decide

end Classes

namespace AsciiSet

section Named

/-- The ASCII letters. -/
def letters : AsciiSet := ⟨Char.isAlpha, fun _ => lt_of_isAlpha⟩

/-- The ASCII digits. -/
def digits : AsciiSet := ⟨Char.isDigit, fun _ => lt_of_isDigit⟩

/-- The ASCII spaces. -/
def spaces : AsciiSet := ⟨isSpace, fun _ => lt_of_isSpace⟩

/-- The two quote characters. -/
def quotes : AsciiSet := ⟨isQuote, fun _ => lt_of_isQuote⟩

/-- The characters that start an identifier. -/
def identifierStarts : AsciiSet := ⟨isIdentifierStart, fun _ => lt_of_isIdentifierStart⟩

/-- The characters of an identifier. -/
def identifierChars : AsciiSet := ⟨isIdentifierChar, fun _ => lt_of_isIdentifierChar⟩

/-- The characters of tag and attribute names. -/
def nameChars : AsciiSet := ⟨isNameChar, fun _ => lt_of_isNameChar⟩

end Named

end AsciiSet

end RazorLayout
