/-!
# Exponents

Integers of 64 bits. Their arithmetic is exact inside the range and stops at its ends, so every operation is the
integer operation followed by `ofInt`, the nearest exponent.
-/

namespace Dimensional

/-- An exponent of a unit: an integer of 64 bits. -/
@[ext]
structure Exponent where
  val : Int
  lower : -9223372036854775808 ≤ val
  upper : val ≤ 9223372036854775807
deriving DecidableEq

namespace Exponent

/-- The least exponent, `-2^63`. -/
def least : Int := -9223372036854775808

/-- The greatest exponent, `2^63 - 1`. -/
def greatest : Int := 9223372036854775807

/-- The exponent nearest to an integer. -/
def ofInt (n : Int) : Exponent where
  val := max least (min greatest n)
  lower := by simp only [least]; omega
  upper := by simp only [least, greatest]; omega

instance (n : Nat) : OfNat Exponent n := ⟨ofInt n⟩

instance : Inhabited Exponent := ⟨0⟩

instance : Add Exponent := ⟨fun a b => ofInt (a.val + b.val)⟩

instance : Mul Exponent := ⟨fun a b => ofInt (a.val * b.val)⟩

instance : Neg Exponent := ⟨fun a => ofInt (-a.val)⟩

instance : ToString Exponent := ⟨fun a => toString a.val⟩

/-- Whether half of the exponent is again an integer. -/
def isEven (a : Exponent) : Bool :=
  a.val % 2 == 0

/-- Half of the exponent, rounded toward zero. -/
def half (a : Exponent) : Exponent :=
  ofInt (a.val.tdiv 2)

theorem val_ofInt_of_mem {n : Int} (h₁ : least ≤ n) (h₂ : n ≤ greatest) : (ofInt n).val = n := by
  simp only [ofInt]
  omega

theorem ofInt_val (a : Exponent) : ofInt a.val = a := by
  ext
  have := a.lower
  have := a.upper
  simp only [ofInt, least, greatest]
  omega

@[simp]
theorem val_zero : (0 : Exponent).val = 0 := rfl

@[simp]
theorem val_one : (1 : Exponent).val = 1 := rfl

theorem val_add (a b : Exponent) : (a + b).val = max least (min greatest (a.val + b.val)) := rfl

theorem val_mul (a b : Exponent) : (a * b).val = max least (min greatest (a.val * b.val)) := rfl

theorem val_neg (a : Exponent) : (-a).val = max least (min greatest (-a.val)) := rfl

end Exponent
end Dimensional
