import RazorLayout.Text.Digit

/-!
# Option values

Options arrive as values of any kind.  Only numbers are compared with limits, so numbers are kept
as they are written: whole ones, flags, which count as zero and one, and numbers with a point,
among them the infinite ones and the undefined one.

A finite number with a point is known by its shortest decimal, which is also how it is printed.
The undefined number is in order with nothing: it is not below any limit.
-/

namespace RazorLayout

/-- A finite number with a point.  No zero stands at the end of its digits. -/
structure Decimal where
  /-- Whether a minus sign is written. -/
  negative : Bool
  digits : Nat
  /-- The power of ten that the digits are multiplied with. -/
  exponent : Int
  canonical : digits % 10 ≠ 0 ∨ (digits = 0 ∧ exponent = 0)
  deriving DecidableEq, Repr

namespace Decimal

/-- The number with the given digits; the zeros at their end go into the exponent. -/
def ofDigits (negative : Bool) (digits : Nat) (exponent : Int) : Decimal :=
  if h₀ : digits = 0 then ⟨negative, 0, 0, .inr ⟨rfl, rfl⟩⟩
  else if h : digits % 10 = 0 then ofDigits negative (digits / 10) (exponent + 1)
  else ⟨negative, digits, exponent, .inl h⟩
termination_by digits
decreasing_by omega

/-- Whether the number is below a natural number. -/
def isBelow (m : Nat) (d : Decimal) : Bool :=
  if d.negative then d.digits != 0 || 0 < m
  else d.digits * Nat.pow 10 d.exponent.toNat < m * Nat.pow 10 (-d.exponent).toNat

/-- The whole part of the number without its sign. -/
def floor (d : Decimal) : Nat :=
  d.digits * Nat.pow 10 d.exponent.toNat / Nat.pow 10 (-d.exponent).toNat

/-- The exponent behind the mark, with a sign and at least two digits. -/
def exponentText (e : Int) : Text :=
  let ds := natText e.natAbs
  'e' :: (if e < 0 then '-' else '+') :: (List.replicate (2 - ds.length) '0' ++ ds)

/-- The number as it is printed: with an exponent when the point is far away from the digits. -/
def text (d : Decimal) : Text :=
  let ds := natText d.digits
  let point := (ds.length : Int) + d.exponent
  let unsigned :=
    if point ≤ -4 ∨ 16 < point then
      ds.take 1 ++ (if ds.length = 1 then [] else '.' :: ds.drop 1) ++ exponentText (point - 1)
    else if point ≤ 0 then
      "0.".toList ++ List.replicate (-point).toNat '0' ++ ds
    else
      let whole := ds.take point.toNat ++ List.replicate d.exponent.toNat '0'
      let part := ds.drop point.toNat
      whole ++ '.' :: (if part.isEmpty then ['0'] else part)
  if d.negative then '-' :: unsigned else unsigned

end Decimal

/-- A number with a point, the values beyond the finite ones included. -/
inductive Fractional where
  | finite (d : Decimal)
  | infinite (negative : Bool)
  /-- The result of an operation without one. -/
  | undefined
  deriving DecidableEq, Repr

namespace Fractional

/-- Whether the number is below a natural number. -/
def isBelow (m : Nat) : Fractional → Bool
  | finite d => d.isBelow m
  | infinite negative => negative
  | undefined => false

/-- Whether the number counts as true. -/
def truth : Fractional → Bool
  | finite d => d.digits != 0
  | infinite _ => true
  | undefined => true

/-- The number as it is printed. -/
def text : Fractional → Text
  | finite d => d.text
  | infinite negative => (if negative then "-inf" else "inf").toList
  | undefined => "nan".toList

end Fractional

/-- A number. -/
inductive Number where
  | whole (n : Int)
  | flag (b : Bool)
  | fraction (x : Fractional)
  deriving DecidableEq, Repr

namespace Number

/-- Whether the number is below a natural number. -/
def isBelow (m : Nat) : Number → Bool
  | whole n => n < m
  | flag b => b.toNat < m
  | fraction x => x.isBelow m

/-- Whether the number counts as true. -/
def truth : Number → Bool
  | whole n => n != 0
  | flag b => b
  | fraction x => x.truth

/-- The number as it is printed. -/
def text : Number → Text
  | whole n => intText n
  | flag b => (if b then "True" else "False").toList
  | fraction x => x.text

/-- The integer that the number equals. -/
def integer? : Number → Option Int
  | whole n => some n
  | flag b => some b.toNat
  | fraction (.finite d) =>
      if 0 ≤ d.exponent then some (if d.negative then -(d.floor : Int) else d.floor) else none
  | fraction (.infinite _) => none
  | fraction .undefined => none

/-- The number of things that the number counts, in the types that can count. -/
def count? : Number → Option Nat
  | whole n => some n.toNat
  | flag b => some b.toNat
  | fraction _ => none

end Number

/-- A value written for an option. -/
inductive Setting where
  | number (n : Number)
  | null
  | text (cs : Text)
  | list (items : List Setting)
  /-- Named values. -/
  | group (entries : List (Text × Setting))
  deriving Repr

namespace Setting

/-- A whole number. -/
def whole (n : Int) : Setting :=
  number (.whole n)

/-- A flag. -/
def flag (b : Bool) : Setting :=
  number (.flag b)

/-- The undefined number. -/
def undefined : Setting :=
  number (.fraction .undefined)

/-- Whether the value counts as true.  Nothing does that is empty. -/
def truth : Setting → Bool
  | number n => n.truth
  | null => false
  | text cs => !cs.isEmpty
  | list items => !items.isEmpty
  | group entries => !entries.isEmpty

/-- The named values of a group. -/
def group? : Setting → Option (List (Text × Setting))
  | group entries => some entries
  | _ => none

@[simp] theorem group?_group (entries : List (Text × Setting)) :
    (group entries).group? = some entries :=
  rfl

/-- The number of things that the value counts. -/
def count? : Setting → Option Nat
  | number n => n.count?
  | _ => none

/-- The largest number of things that are not more than the value. -/
def limit? : Setting → Option Nat
  | number (.fraction (.finite d)) => some d.floor
  | v => v.count?

/-- The width that the value sets as a limit, zero for none.  Nothing is wider than an infinite or
an undefined number, and everything is wider than a number below one. -/
def width? : Setting → Option Nat
  | number (.fraction (.finite d)) => some (if d.digits = 0 then 0 else max 1 d.floor)
  | number (.fraction _) => some 0
  | v => v.count?

end Setting

end RazorLayout
