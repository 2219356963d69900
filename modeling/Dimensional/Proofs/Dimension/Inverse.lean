import Dimensional.Proofs.Dimension.Exponents

/-!
# Inverses of dimensions

The exponents reach one further down than up, so the inverse of the least exponent stops at the greatest one and does
not cancel it. A dimension divided by itself therefore keeps the exponent −1 for every name that had the least exponent
(`exponent_div_self`).

The main statement is `inverse_laws_iff`: a dimension has an inverse exactly when none of its exponents is the least.
-/

namespace Dimensional

namespace Exponent

theorem val_mul_neg_one (a : Exponent) : (a * -1).val = if a.val = least then greatest else -a.val := by
  have hone : (-1 : Exponent).val = -1 := rfl
  have hlower := a.lower
  have hupper := a.upper
  rw [val_mul, hone, least, greatest]
  split <;> omega

/-- An exponent and its inverse cancel, except for the least one. -/
theorem add_mul_neg_one (a : Exponent) : a + a * -1 = if a.val = least then -1 else 0 := by
  ext
  rw [val_add, val_mul_neg_one]
  split
  · next h =>
    rw [h]
    rfl
  · rw [Int.add_right_neg]
    rfl

theorem mul_neg_one_mul_neg_one_eq_iff (a : Exponent) : a * -1 * -1 = a ↔ a.val ≠ least := by
  rw [Exponent.ext_iff]
  by_cases h : a.val = least
  · have hinverse : (a * -1).val = greatest := by rw [val_mul_neg_one, if_pos h]
    rw [val_mul_neg_one, hinverse, h]
    decide
  · have hinverse : (a * -1).val = -a.val := by rw [val_mul_neg_one, if_neg h]
    have hne : -a.val ≠ least := by
      have hupper := a.upper
      rw [least]
      omega
    rw [val_mul_neg_one, hinverse, if_neg hne, Int.neg_neg]
    exact iff_of_true rfl h

end Exponent

namespace Dimension

variable (d : Dimension) (name : String)

/-- No exponent of the dimension is the least one. -/
def Invertible : Prop := ∀ e ∈ d.entries, e.2.val ≠ Exponent.least

theorem invertible_iff : d.Invertible ↔ ∀ name, (d.exponent name).val ≠ Exponent.least := by
  constructor
  · intro h name
    cases hg : d.exponents.get? name with
    | none =>
      have hzero : d.exponent name = 0 := by rw [exponent, hg]; rfl
      rw [hzero]
      decide
    | some e =>
      have hmem : (name, e) ∈ d.entries := NameMap.get?_eq_some_iff.mp hg
      rw [exponent_of_mem hmem]
      exact h (name, e) hmem
  · intro h e he
    rw [← exponent_of_mem he]
    exact h e.1

theorem exponent_inverse : d.inverse.exponent name = d.exponent name * -1 :=
  exponent_pow d name (-1)

/-- Dividing by a dimension is multiplying by its inverse. -/
theorem dimensionless_div : dimensionless.div d = d.inverse :=
  dimensionless_mul d.inverse

/-- **What is left of a dimension that is divided by itself.** -/
theorem exponent_div_self :
    (d.div d).exponent name = if (d.exponent name).val = Exponent.least then -1 else 0 := by
  rw [div, exponent_mul, exponent_inverse, Exponent.add_mul_neg_one]

theorem div_self_eq_dimensionless_iff : d.div d = dimensionless ↔ d.Invertible := by
  have hone : (-1 : Exponent) ≠ 0 := by decide
  rw [invertible_iff]
  constructor
  · intro h name hleast
    have hleft := exponent_div_self d name
    rw [h, exponent_dimensionless, if_pos hleast] at hleft
    exact hone hleft.symm
  · intro h
    refine ext_exponent fun name => ?_
    rw [exponent_div_self, if_neg (h name), exponent_dimensionless]

theorem inverse_inverse_eq_iff : d.inverse.inverse = d ↔ d.Invertible := by
  rw [invertible_iff]
  constructor
  · intro h name
    rw [← Exponent.mul_neg_one_mul_neg_one_eq_iff, ← exponent_inverse, ← exponent_inverse, h]
  · intro h
    refine ext_exponent fun name => ?_
    rw [exponent_inverse, exponent_inverse, Exponent.mul_neg_one_mul_neg_one_eq_iff]
    exact h name

/-- **A dimension has an inverse exactly when none of its exponents is the least.** Then and only then it cancels with
its inverse, gives the empty product when divided by itself, and comes back when inverted twice. -/
theorem inverse_laws_iff (d : Dimension) :
    (d.mul (dimensionless.div d) = dimensionless ↔ d.Invertible) ∧
    (d.div d = dimensionless ↔ d.Invertible) ∧
    (d.inverse.inverse = d ↔ d.Invertible) := by
  refine ⟨?_, d.div_self_eq_dimensionless_iff, d.inverse_inverse_eq_iff⟩
  rw [dimensionless_div]
  exact d.div_self_eq_dimensionless_iff

/-- The least power of a metre has no inverse. -/
theorem least_power_not_inverted :
    (base "m" (.ofInt Exponent.least)).mul (dimensionless.div (base "m" (.ofInt Exponent.least))) ≠ dimensionless ∧
    (base "m" (.ofInt Exponent.least)).div (base "m" (.ofInt Exponent.least)) ≠ dimensionless ∧
    (base "m" (.ofInt Exponent.least)).inverse.inverse ≠ base "m" (.ofInt Exponent.least) := by
  decide +kernel

end Dimension
end Dimensional
