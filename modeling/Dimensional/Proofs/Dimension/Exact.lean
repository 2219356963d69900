import Dimensional.Proofs.Dimension.Exponents
import Mathlib.Algebra.Order.Ring.Abs

/-!
# Exact arithmetic

Where the sizes that go into it stay in the range of exponents, arithmetic on exponents is arithmetic on integers, and
its laws are theirs. The bounds are on what goes in, not on what comes out: a sum whose parts cancel can leave the range
on the way.
-/

namespace Dimensional

namespace Exponent

/-- The absolute value, as an integer. -/
def size (e : Exponent) : Int := |e.val|

variable {a b c j k l : Exponent} {n : Int}

theorem size_nonneg (a : Exponent) : 0 ≤ a.size := abs_nonneg _

theorem max_min_eq (h : |n| ≤ greatest) : max least (min greatest n) = n := by
  have := abs_le.mp h
  simp only [least, greatest] at *
  omega

theorem val_add_of_abs_le (h : |a.val + b.val| ≤ greatest) : (a + b).val = a.val + b.val := by
  rw [val_add, max_min_eq h]

theorem val_mul_of_abs_le (h : |a.val * b.val| ≤ greatest) : (a * b).val = a.val * b.val := by
  rw [val_mul, max_min_eq h]

/-! ### From the sizes -/

theorem val_add_of_size_le (h : a.size + b.size ≤ greatest) : (a + b).val = a.val + b.val :=
  val_add_of_abs_le ((abs_add_le _ _).trans h)

theorem size_add_le (h : a.size + b.size ≤ greatest) : (a + b).size ≤ a.size + b.size := by
  rw [size, val_add_of_size_le h]
  exact abs_add_le _ _

theorem val_mul_of_size_le (h : a.size * b.size ≤ greatest) : (a * b).val = a.val * b.val := by
  apply val_mul_of_abs_le
  rw [abs_mul]
  exact h

theorem size_mul (h : a.size * b.size ≤ greatest) : (a * b).size = a.size * b.size := by
  rw [size, val_mul_of_size_le h, abs_mul]
  rfl

theorem size_neg_one : (-1 : Exponent).size = 1 := rfl

theorem eq_zero_or_one_le_size (k : Exponent) : k = 0 ∨ 1 ≤ k.size := by
  rcases eq_or_ne k.val 0 with hzero | hne
  · exact .inl (Exponent.ext hzero)
  · exact .inr (Int.one_le_abs hne)

theorem mul_zero (a : Exponent) : a * 0 = 0 := by
  ext
  rw [val_mul, val_zero, Int.mul_zero]
  rfl

/-! ### Laws -/

/-- Addition commutes at the ends of the range, too. -/
theorem add_comm (a b : Exponent) : a + b = b + a := by
  ext
  rw [val_add, val_add, Int.add_comm]

theorem add_assoc_of_size_le (h : a.size + b.size + c.size ≤ greatest) : a + b + c = a + (b + c) := by
  have ha := a.size_nonneg
  have hc := c.size_nonneg
  have hab : a.size + b.size ≤ greatest := by omega
  have hbc : b.size + c.size ≤ greatest := by omega
  have hleft := size_add_le hab
  have hright := size_add_le hbc
  ext
  rw [val_add_of_size_le (a := a + b) (by omega), val_add_of_size_le hab, val_add_of_size_le (b := b + c) (by omega),
    val_add_of_size_le hbc, Int.add_assoc]

/-- What is taken away and added again. -/
theorem add_mul_neg_one_add (h : a.size + b.size ≤ greatest) : a + b * -1 + b = a := by
  have hb : b.size * (-1 : Exponent).size ≤ greatest := by
    have := a.size_nonneg
    rw [size_neg_one, Int.mul_one]
    omega
  have hinverse : (b * -1).val = -b.val := by
    rw [val_mul_of_size_le hb]
    exact Int.mul_neg_one _
  have hsize : (b * -1).size = b.size := by rw [size_mul hb, size_neg_one, Int.mul_one]
  have hdiff : (a + b * -1).val = a.val - b.val := by
    rw [val_add_of_size_le (by rwa [hsize]), hinverse, Int.sub_eq_add_neg]
  have ha : |a.val| ≤ greatest := by
    have := b.size_nonneg
    exact (le_add_of_nonneg_right this).trans h
  ext
  rw [val_add_of_abs_le] <;> rw [hdiff, Int.sub_add_cancel]
  exact ha

/-- A factor that is not 0 bounds what it is multiplied with. -/
theorem size_le_of_mul_le {m : Int} (hm : 0 ≤ m) (hk : 1 ≤ k.size) (h : k.size * m ≤ greatest) : m ≤ greatest :=
  (le_mul_of_one_le_left hm hk).trans h

theorem add_mul_of_size_le (h : k.size * (a.size + b.size) ≤ greatest) : (a + b) * k = a * k + b * k := by
  rcases eq_zero_or_one_le_size k with rfl | hk
  · rw [mul_zero, mul_zero, mul_zero, zero_add]
  have ha := a.size_nonneg
  have hb := b.size_nonneg
  have hab : a.size + b.size ≤ greatest := size_le_of_mul_le (Int.add_nonneg ha hb) hk h
  have hparts : a.size * k.size + b.size * k.size ≤ greatest := by
    rwa [← Int.add_mul, Int.mul_comm]
  have hpa : 0 ≤ a.size * k.size := Int.mul_nonneg ha k.size_nonneg
  have hpb : 0 ≤ b.size * k.size := Int.mul_nonneg hb k.size_nonneg
  have hak : a.size * k.size ≤ greatest := by omega
  have hbk : b.size * k.size ≤ greatest := by omega
  have hsum : (a + b).size * k.size ≤ greatest := by
    refine (Int.mul_le_mul_of_nonneg_right (size_add_le hab) k.size_nonneg).trans ?_
    rwa [Int.add_mul]
  ext
  rw [val_mul_of_size_le hsum, val_add_of_size_le hab, val_add_of_size_le (by rwa [size_mul hak, size_mul hbk]),
    val_mul_of_size_le hak, val_mul_of_size_le hbk, Int.add_mul]

theorem mul_add_of_size_le (hl : l.val = j.val + k.val) (h : a.size * (j.size + k.size) ≤ greatest) :
    a * j + a * k = a * l := by
  have ha := a.size_nonneg
  rw [Int.mul_add] at h
  have hpj : 0 ≤ a.size * j.size := Int.mul_nonneg ha j.size_nonneg
  have hpk : 0 ≤ a.size * k.size := Int.mul_nonneg ha k.size_nonneg
  have haj : a.size * j.size ≤ greatest := by omega
  have hak : a.size * k.size ≤ greatest := by omega
  have hsum : |a.val * l.val| ≤ greatest := by
    rw [hl, Int.mul_add]
    refine (abs_add_le _ _).trans ?_
    rwa [abs_mul, abs_mul]
  ext
  rw [val_mul_of_abs_le hsum, val_add_of_size_le (by rwa [size_mul haj, size_mul hak]), val_mul_of_size_le haj,
    val_mul_of_size_le hak, hl, Int.mul_add]

theorem mul_mul_of_size_le (hl : l.val = j.val * k.val) (h : a.size * j.size * k.size ≤ greatest) :
    a * j * k = a * l := by
  have hlast : (a * l).val = a.val * j.val * k.val := by
    rw [val_mul_of_abs_le] <;> rw [hl, ← Int.mul_assoc]
    rwa [abs_mul, abs_mul]
  ext
  rw [hlast]
  -- a last factor 0 makes up for whatever was too large before it
  rcases eq_zero_or_one_le_size k with rfl | hk
  · rw [mul_zero, val_zero, Int.mul_zero]
  · have haj : a.size * j.size ≤ greatest := by
      rw [Int.mul_comm] at h
      exact size_le_of_mul_le (Int.mul_nonneg a.size_nonneg j.size_nonneg) hk h
    rw [val_mul_of_size_le (by rwa [size_mul haj]), val_mul_of_size_le haj]

end Exponent
end Dimensional
