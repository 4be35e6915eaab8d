import RazorLayout.Config.Options
import Mathlib.Algebra.Order.Field.Power
import Mathlib.Data.Rat.Cast.Order
import Mathlib.Tactic.Linarith
import Mathlib.Tactic.Positivity
import Mathlib.Tactic.Ring

/-!
# Values within their limits

A limit is checked by asking whether a number is below it.  For every number but the undefined one
this is the same as asking whether the number is at least the limit (`Number.isBelow_eq_false_iff`);
the undefined number is below nothing and at least nothing, and so it passes every check
(`Bound.check_eq_ok_iff`).
-/

namespace RazorLayout

/-! ### Numbers with a point -/

namespace Decimal

/-- The number without its sign. -/
def magnitude (d : Decimal) : ℚ :=
  d.digits * 10 ^ d.exponent

/-- The number that is meant. -/
def value (d : Decimal) : ℚ :=
  if d.negative then -d.magnitude else d.magnitude

theorem magnitude_ofDigits (negative : Bool) (digits : Nat) (exponent : Int) :
    (ofDigits negative digits exponent).magnitude = digits * 10 ^ exponent := by
  fun_induction ofDigits negative digits exponent with
  | case1 exponent => simp [magnitude]
  | case2 digits exponent _ hzero ih =>
      have hten : (digits : ℚ) = (digits / 10 : Nat) * 10 := by
        exact_mod_cast (Nat.div_mul_cancel (Nat.dvd_of_mod_eq_zero hzero)).symm
      rw [ih, hten, zpow_add₀ (by norm_num), zpow_one]
      ring
  | case3 digits exponent _ hlast => rfl

theorem negative_ofDigits (negative : Bool) (digits : Nat) (exponent : Int) :
    (ofDigits negative digits exponent).negative = negative := by
  fun_induction ofDigits negative digits exponent with
  | case1 exponent => rfl
  | case2 digits exponent _ hzero ih => exact ih
  | case3 digits exponent _ hlast => rfl

/-- Moving zeros from the digits into the exponent does not change the number. -/
theorem value_ofDigits (negative : Bool) (digits : Nat) (exponent : Int) :
    (ofDigits negative digits exponent).value =
      if negative then -((digits : ℚ) * 10 ^ exponent) else digits * 10 ^ exponent := by
  rw [value, negative_ofDigits, magnitude_ofDigits]

theorem magnitude_nonneg (d : Decimal) : 0 ≤ d.magnitude := by
  unfold magnitude
  positivity

theorem magnitude_eq_zero_iff (d : Decimal) : d.magnitude = 0 ↔ d.digits = 0 := by
  simp [magnitude, zpow_ne_zero]

/-- The powers of ten on the two sides of a comparison stand for the exponent. -/
theorem zpow_mul_pow_toNat (e : Int) :
    (10 : ℚ) ^ e * 10 ^ (-e).toNat = 10 ^ e.toNat := by
  rw [← zpow_natCast, ← zpow_natCast, ← zpow_add₀ (by norm_num)]
  congr 1
  omega

theorem magnitude_lt_natCast_iff (d : Decimal) (m : Nat) :
    d.magnitude < m ↔
      d.digits * Nat.pow 10 d.exponent.toNat < m * Nat.pow 10 (-d.exponent).toNat := by
  have hpow : (0 : ℚ) < 10 ^ (-d.exponent).toNat := by positivity
  calc d.magnitude < m
      ↔ d.magnitude * 10 ^ (-d.exponent).toNat < m * 10 ^ (-d.exponent).toNat :=
        (mul_lt_mul_iff_left₀ hpow).symm
    _ ↔ (d.digits : ℚ) * 10 ^ d.exponent.toNat < m * 10 ^ (-d.exponent).toNat := by
        rw [magnitude, mul_assoc, zpow_mul_pow_toNat]
    _ ↔ d.digits * Nat.pow 10 d.exponent.toNat < m * Nat.pow 10 (-d.exponent).toNat := by
        simp only [Nat.pow_eq]
        exact_mod_cast Iff.rfl

theorem isBelow_iff (d : Decimal) (m : Nat) : d.isBelow m = true ↔ d.value < m := by
  unfold isBelow value
  cases d.negative with
  | false =>
      simp only [Bool.false_eq_true, if_false, decide_eq_true_eq]
      exact (magnitude_lt_natCast_iff d m).symm
  | true =>
      simp only [if_true, Bool.or_eq_true, bne_iff_ne, ne_eq, decide_eq_true_eq]
      have hm : (0 : ℚ) ≤ m := Nat.cast_nonneg m
      by_cases hd : d.digits = 0
      · rw [(magnitude_eq_zero_iff d).mpr hd, neg_zero, Nat.cast_pos]
        simp [hd]
      · have hpos : 0 < d.magnitude :=
          lt_of_le_of_ne d.magnitude_nonneg (Ne.symm (mt d.magnitude_eq_zero_iff.mp hd))
        exact iff_of_true (.inl hd) (by linarith)

end Decimal

/-! ### Values that are at least a limit -/

/-- The number is at least `m`. -/
def Fractional.IsAtLeast (m : Nat) : Fractional → Prop
  | finite d => (m : ℚ) ≤ d.value
  | infinite negative => negative = false
  | undefined => False

/-- The number is at least `m`. -/
def Number.IsAtLeast (m : Nat) : Number → Prop
  | whole n => (m : Int) ≤ n
  | flag b => m ≤ b.toNat
  | fraction x => x.IsAtLeast m

/-- The value is a number that is at least `m`. -/
def Setting.IsAtLeast (m : Nat) (v : Setting) : Prop :=
  ∃ n, v = .number n ∧ n.IsAtLeast m

theorem Fractional.isBelow_eq_false_iff (x : Fractional) (m : Nat) :
    x.isBelow m = false ↔ x.IsAtLeast m ∨ x = .undefined := by
  cases x with
  | finite d =>
      rw [isBelow, ← Bool.not_eq_true, Decimal.isBelow_iff, not_lt]
      simp [IsAtLeast]
  | infinite negative => simp [isBelow, IsAtLeast]
  | undefined => simp [isBelow]

theorem Number.isBelow_eq_false_iff (n : Number) (m : Nat) :
    n.isBelow m = false ↔ n.IsAtLeast m ∨ n = .fraction .undefined := by
  cases n with
  | whole n => simp [isBelow, IsAtLeast]
  | flag b => simp [isBelow, IsAtLeast]
  | fraction x => simp [isBelow, IsAtLeast, Fractional.isBelow_eq_false_iff]

theorem Setting.not_isAtLeast_undefined (m : Nat) : ¬ Setting.undefined.IsAtLeast m := by
  rintro ⟨n, hn, hle⟩
  cases hn
  exact hle

theorem Setting.not_isAtLeast_null (m : Nat) : ¬ Setting.null.IsAtLeast m := by
  rintro ⟨n, hn, -⟩
  cases hn

/-! ### Checked values -/

/-- What a check lets pass: the numbers that are at least the limit, and the undefined one. -/
theorem Bound.check_eq_ok_iff {b : Bound} {label : Text} {v : Setting} :
    b.check label v = .ok () ↔ v.IsAtLeast b.least ∨ v = .undefined := by
  cases v with
  | number n =>
      have hpass : b.check label (.number n) = .ok () ↔ n.isBelow b.least = false := by
        cases hn : n.isBelow b.least <;> simp [check, hn]
      rw [hpass, Number.isBelow_eq_false_iff]
      simp [Setting.IsAtLeast, Setting.undefined]
  | _ => simp [check, Setting.IsAtLeast, Setting.undefined]

/-- The values that pass the check of a rule. -/
def Rule.Admits : Rule → Setting → Prop
  | free, _ => True
  | bounded b, v => v.IsAtLeast b.least ∨ v = .undefined
  | optional b, v => v = .null ∨ v.IsAtLeast b.least ∨ v = .undefined

theorem Rule.check_eq_ok_iff {rule : Rule} {label : Text} {v : Setting} :
    rule.check label v = .ok () ↔ rule.Admits v := by
  cases rule with
  | free => simp [check, Admits]
  | bounded b => exact Bound.check_eq_ok_iff
  | optional b =>
      by_cases hnull : v = .null
      · simp [hnull, check, Admits]
      · have hcheck : (optional b).check label v = b.check label v := by
          cases v with
          | null => exact absurd rfl hnull
          | _ => rfl
        rw [hcheck, Bound.check_eq_ok_iff]
        simp [Admits, hnull]

end RazorLayout
