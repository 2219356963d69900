import Mathlib.Data.List.Basic

/-!
# Decimal digits of integers

The text of an integer is its sign and its digits, and the digits of a number other than 0 do not start with a 0.
-/

namespace Dimensional

theorem head?_toDigits {n : Nat} (h : (Nat.toDigits 10 n).head? = some '0') : n = 0 := by
  induction n using Nat.strongRecOn with
  | ind n ih =>
    rcases Nat.lt_or_ge n 10 with hn | hn
    · rw [Nat.toDigits_of_lt_base hn] at h
      have hzero : ∀ k < 10, k.digitChar = '0' → k = 0 := by decide
      exact hzero n hn (Option.some.inj h)
    · rw [Nat.toDigits_of_base_le (by omega) hn, List.head?_append_of_ne_nil _ Nat.toDigits_ne_nil] at h
      have := ih (n / 10) (by omega) h
      omega

theorem toList_toString (k : Int) :
    (toString k).toList = (if k < 0 then ['-'] else []) ++ Nat.toDigits 10 k.natAbs := by
  rw [Int.toString_eq_repr, Int.repr_eq_if]
  by_cases hk : k < 0
  · have hnat : (-k).toNat = k.natAbs := by omega
    have hminus : "-".toList = ['-'] := by decide
    rw [if_neg (by omega), if_pos hk, String.toList_append, hminus, hnat, Nat.repr_eq_ofList_toDigits,
      String.toList_ofList]
  · have hnat : k.toNat = k.natAbs := by omega
    rw [if_pos (by omega), if_neg hk, hnat, Nat.repr_eq_ofList_toDigits, String.toList_ofList]
    rfl

end Dimensional
