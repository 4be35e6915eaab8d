/-!
# Blank characters

Two notions of white space are in use.

* `isSpace` is the ASCII one: the scanners that step from one construct to the next use it.
* `isBlank` is the Unicode property `White_Space` together with the four information separators:
  trimming, blank-line tests and the optional gaps inside keywords use it.

Every ASCII space is blank.
-/

namespace RazorLayout

/-- The ASCII spaces: tab, line feed, vertical tab, form feed, carriage return and space. -/
def isSpace (c : Char) : Bool :=
  c == ' ' || (0x09 ≤ c.toNat && c.toNat ≤ 0x0D)

/-- The blank characters of Unicode. -/
def isBlank (c : Char) : Bool :=
  let code := c.toNat
  (0x09 ≤ code && code ≤ 0x0D) || (0x1C ≤ code && code ≤ 0x20) ||
    code == 0x85 || code == 0xA0 || code == 0x1680 ||
    (0x2000 ≤ code && code ≤ 0x200A) || code == 0x2028 || code == 0x2029 ||
    code == 0x202F || code == 0x205F || code == 0x3000

/-- A blank of one line that indents it: a space or a tab. -/
def isTabOrSpace (c : Char) : Bool :=
  c == ' ' || c == '\t'

theorem isBlank_of_isSpace {c : Char} (h : isSpace c = true) : isBlank c = true := by
  simp only [isSpace, Bool.or_eq_true, beq_iff_eq, Bool.and_eq_true, decide_eq_true_eq] at h
  rcases h with rfl | h
  · decide
  · simp [isBlank, h]

theorem isSpace_of_isTabOrSpace {c : Char} (h : isTabOrSpace c = true) : isSpace c = true := by
  simp only [isTabOrSpace, Bool.or_eq_true, beq_iff_eq] at h
  rcases h with rfl | rfl <;> decide

end RazorLayout
