import Mathlib.Data.Int.Log
import Mathlib.Data.Rat.Floor

/-!
# Rounding to a double

The binary64 number nearest to a rational, ties to even. The step between the doubles around `q`
is `2 ^ quantum q`: 53 significant bits, and no finer than the subnormals. A result of `2 ^ 1024`
or more is no finite double.

What the arithmetic of a program needs is when nothing is rounded: `nearest_of_dvd` for a number
that is a multiple of its step, and `round_natCast` for a natural number below `2 ^ 53`.
-/

set_option autoImplicit false

namespace Double

/-- The nearest integer, the even one of two. -/
def roundEven (q : Rat) : Int :=
  if q - q.floor < 1 / 2 ∨ (q - q.floor = 1 / 2 ∧ q.floor % 2 = 0) then q.floor else q.floor + 1

/-- The exponent of the last place of the doubles around `q`. -/
def quantum (q : Rat) : Int := max (Int.log 2 |q| - 52) (-1074)

/-- The nearest double, were the exponents unbounded above. -/
def nearest (q : Rat) : Rat := roundEven (q / 2 ^ quantum q) * 2 ^ quantum q

/-- The nearest finite double, if there is one. -/
def round (q : Rat) : Option Rat := if |nearest q| < 2 ^ 1024 then some (nearest q) else none

@[simp] theorem roundEven_intCast (m : Int) : roundEven m = m := by
  simp [roundEven]

/-- A multiple of its step is not rounded. -/
theorem nearest_of_dvd {q : Rat} {m : Int} (h : q = m * 2 ^ quantum q) : nearest q = q := by
  have hpos : (2 : Rat) ^ quantum q ≠ 0 := zpow_ne_zero _ two_ne_zero
  have hdiv : q / 2 ^ quantum q = m := by
    rw [div_eq_iff hpos]
    exact h
  unfold nearest
  rw [hdiv, roundEven_intCast]
  exact h.symm

/-- The step below `2 ^ 53` is at most 1. -/
theorem quantum_natCast {n : Nat} (h : n < 2 ^ 53) : quantum n ≤ 0 := by
  have hlog : Int.log 2 |(n : Rat)| ≤ 52 := by
    rw [Nat.abs_cast, Int.log_natCast]
    have hnat : Nat.log 2 n < 53 := Nat.log_lt_of_lt_pow' (by decide) h
    exact_mod_cast Nat.lt_succ_iff.mp hnat
  apply max_le
  · exact Int.sub_nonpos_of_le hlog
  · decide

theorem nearest_natCast {n : Nat} (h : n < 2 ^ 53) : nearest n = n := by
  have hstep : ((n : Int) * 2 ^ (-quantum n).toNat : Int) * (2 : Rat) ^ quantum n = n := by
    have hexp : ((-quantum (n : Rat)).toNat : Int) = -quantum (n : Rat) :=
      Int.toNat_of_nonneg (Int.neg_nonneg_of_nonpos (quantum_natCast h))
    have hcancel : (2 : Rat) ^ (-quantum (n : Rat)).toNat * 2 ^ quantum (n : Rat) = 1 := by
      rw [← zpow_natCast, ← zpow_add₀ two_ne_zero, hexp, neg_add_cancel, zpow_zero]
    push_cast
    rw [mul_assoc, hcancel, mul_one]
  exact nearest_of_dvd hstep.symm

/-- **Natural numbers below `2 ^ 53` are doubles.** -/
theorem round_natCast {n : Nat} (h : n < 2 ^ 53) : round n = some (n : Rat) := by
  have hlt : |(n : Rat)| < 2 ^ 1024 := by
    rw [Nat.abs_cast]
    calc (n : Rat) < 2 ^ 53 := by exact_mod_cast h
      _ ≤ 2 ^ 1024 := pow_le_pow_right₀ one_le_two (by decide)
  unfold round
  rw [nearest_natCast h, if_pos hlt]

end Double
