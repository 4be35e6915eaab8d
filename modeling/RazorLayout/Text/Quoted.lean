import RazorLayout.Text.Digit
import RazorLayout.Text.Printable

/-!
# Quoted texts

A quoted text shows every character: printable ones stand for themselves, the others are escaped.
The delimiter is the apostrophe, unless the text holds an apostrophe and no double quote.
-/

namespace RazorLayout

namespace Quoted

/-- The lower-case hexadecimal digits of `n`, filled up with zeros to `width`. -/
def hex (width n : Nat) : Text :=
  let digits := Nat.toDigits 16 n
  List.replicate (width - digits.length) '0' ++ digits

/-- The delimiter for a text. -/
def delimiter (cs : Text) : Char :=
  if cs.contains '\'' && !cs.contains '"' then '"' else '\''

/-- The escape of a character that is not printable: the shortest form that holds its code. -/
def escapeCode (c : Char) : Text :=
  if c.toNat < 0x100 then '\\' :: 'x' :: hex 2 c.toNat
  else if c.toNat < 0x10000 then '\\' :: 'u' :: hex 4 c.toNat
  else '\\' :: 'U' :: hex 8 c.toNat

/-- A character as it stands between two `quote`s. -/
def escape (quote c : Char) : Text :=
  if c = quote ∨ c = '\\' then ['\\', c]
  else if c = '\t' then ['\\', 't']
  else if c = '\n' then ['\\', 'n']
  else if c = '\r' then ['\\', 'r']
  else if isPrintable c then [c]
  else escapeCode c

end Quoted

/-- The text between quotes, with every character shown. -/
def quoted (cs : Text) : Text :=
  let quote := Quoted.delimiter cs
  quote :: cs.flatMap (Quoted.escape quote) ++ [quote]

/-- A text that may be missing. -/
def quotedOption : Option Text → Text
  | none => "None".toList
  | some cs => quoted cs

end RazorLayout
