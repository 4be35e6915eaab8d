import RazorLayout.Text.Digit

/-!
# Numbers on a command line

A number is written with decimal digits of any script; single underscores may stand between digits
and blanks around the number.
-/

namespace RazorLayout

namespace Numeral

/-- The number that digits stand for, with single underscores between them.  `value` is what the
digits in front stand for and `ready` says that the last character was a digit. -/
def readDigits : (value : Nat) → (ready : Bool) → Text → Option Nat
  | value, ready, [] => if ready then some value else none
  | value, ready, c :: cs =>
      match digitValue? c with
      | some d => readDigits (10 * value + d) true cs
      | none => if c = '_' ∧ ready = true then readDigits value false cs else none

/-- The natural number that a text stands for. -/
def natural? (cs : Text) : Option Nat :=
  readDigits 0 false cs

/-- The sign of a number and the text behind it. -/
def splitSign : Text → Bool × Text
  | '-' :: cs => (true, cs)
  | '+' :: cs => (false, cs)
  | cs => (false, cs)

/-- The integer that a text stands for. -/
def integer? (cs : Text) : Option Int :=
  let (negative, digits) := splitSign (Text.strip cs)
  (natural? digits).map fun n => if negative then -(n : Int) else n

/-- Whether a text is a run of digits. -/
def isDigits (cs : Text) : Bool :=
  (natural? cs).isSome

/-- Whether a text is the exponent of a decimal number, without its mark. -/
def isExponent (cs : Text) : Bool :=
  isDigits (splitSign cs).2

/-- Whether a text is a decimal number without an exponent: there are digits on at least one side of
the point. -/
def isMantissa (cs : Text) : Bool :=
  match cs.dropWhile fun c => c != '.' with
  | [] => isDigits cs
  | _ :: part =>
      let whole := cs.takeWhile fun c => c != '.'
      (isDigits whole && (part.isEmpty || isDigits part)) || (whole.isEmpty && isDigits part)

/-- Whether a text stands for a decimal number, an infinity or no number. -/
def isDecimal (cs : Text) : Bool :=
  let body := Text.lower (splitSign (Text.strip cs)).2
  body == "inf".toList || body == "infinity".toList || body == "nan".toList ||
    (match body.dropWhile fun c => c != 'e' with
      | [] => isMantissa body
      | _ :: exponent => isMantissa (body.takeWhile fun c => c != 'e') && isExponent exponent)

/-- Whether a text is a plain negative number: a minus sign and digits, maybe with a point. -/
def isNegativeNumber : Text → Bool
  | '-' :: cs =>
      let whole := cs.takeWhile isDecimalDigit
      match cs.dropWhile isDecimalDigit with
      | [] => !whole.isEmpty
      | '.' :: part => !part.isEmpty && part.all isDecimalDigit
      | _ => false
  | _ => false

end Numeral

end RazorLayout
