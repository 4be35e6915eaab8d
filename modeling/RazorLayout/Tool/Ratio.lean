import RazorLayout.Text.Digit

/-!
# Exact ratios and their decimals

Measured quantities are exact ratios.  They are printed with a fixed number of decimals; a value
half way between two decimals goes to the one with the even last digit.
-/

namespace RazorLayout

/-- A ratio of an integer and a natural number. -/
structure Ratio where
  num : Int
  den : Nat
  deriving DecidableEq, Repr

namespace Ratio

/-- Nothing. -/
def zero : Ratio := ⟨0, 1⟩

/-- A multiple of a ratio. -/
def scale (k : Nat) (r : Ratio) : Ratio :=
  ⟨r.num * k, r.den⟩

/-- The quotient of natural numbers to the nearest natural number; a tie goes to the even one. -/
def roundHalfEven (n d : Nat) : Nat :=
  let q := n / d
  let twice := 2 * (n % d)
  if d < twice ∨ (twice = d ∧ q % 2 = 1) then q + 1 else q

/-- The decimal digits of `n`, at least `width` of them. -/
def digits (width n : Nat) : Text :=
  let ds := natText n
  List.replicate (width - ds.length) '0' ++ ds

/-- The ratio with `places` decimals.  A negative ratio keeps its sign also where it is rounded to
nothing. -/
def fixed (places : Nat) (r : Ratio) : Text :=
  let scaled := roundHalfEven (r.num.natAbs * Nat.pow 10 places) r.den
  let ds := digits (places + 1) scaled
  let whole := ds.take (ds.length - places)
  let part := ds.drop (ds.length - places)
  (if r.num < 0 then ['-'] else []) ++ whole ++ (if places = 0 then [] else '.' :: part)

end Ratio

end RazorLayout
