import Dimensional.Dimension
import Mathlib.Data.List.Basic

/-!
# Exponents of products and powers

The product of two dimensions adds their exponents name by name, a power multiplies them (`exponent_mul`,
`exponent_pow`), saturation included: every entry of the second factor meets the exponent of its name exactly once.
-/

namespace Dimensional

/-! ### Neutral exponents -/

namespace Exponent

@[simp]
theorem zero_add (a : Exponent) : 0 + a = a := by
  ext
  have := a.lower
  have := a.upper
  rw [val_add, val_zero, least, greatest]
  omega

@[simp]
theorem add_zero (a : Exponent) : a + 0 = a := by
  ext
  have := a.lower
  have := a.upper
  rw [val_add, val_zero, least, greatest]
  omega

@[simp]
theorem mul_one (a : Exponent) : a * 1 = a := by
  ext
  have := a.lower
  have := a.upper
  rw [val_mul, val_one, least, greatest]
  omega

@[simp]
theorem one_mul (a : Exponent) : 1 * a = a := by
  ext
  have := a.lower
  have := a.upper
  rw [val_mul, val_one, least, greatest]
  omega

@[simp]
theorem zero_mul (a : Exponent) : 0 * a = 0 := by
  ext
  rw [val_mul, val_zero, Int.zero_mul]
  rfl

end Exponent

namespace Dimension

variable (d other : Dimension) (name : String)

theorem exponent_eq_lookupEntry : d.exponent name = (NameMap.lookupEntry name d.entries).getD 0 := rfl

theorem exponent_of_mem {d : Dimension} {name : String} {e : Exponent} (h : (name, e) ∈ d.entries) :
    d.exponent name = e := by
  have hget : d.exponents.get? name = some e := NameMap.get?_eq_some_iff.mpr h
  rw [exponent, hget]
  rfl

/-- Entries whose names are in order add to each exponent at most once. -/
theorem exponent_foldl_accumulate {es : List (String × Exponent)} (h : es.Pairwise (fun a b => a.1 < b.1)) :
    (es.foldl (fun d e => d.accumulate e.1 e.2) d).exponent name =
      d.exponent name + (NameMap.lookupEntry name es).getD 0 := by
  induction es generalizing d with
  | nil => simp [NameMap.lookupEntry]
  | cons e rest ih =>
    obtain ⟨hlt, hrest⟩ := List.pairwise_cons.mp h
    rw [List.foldl_cons, ih _ hrest, exponent_accumulate]
    by_cases hn : name = e.1
    · have hnone : NameMap.lookupEntry e.1 rest = none := NameMap.lookupEntry_eq_none hlt
      simp [NameMap.lookupEntry, hn, hnone]
    · simp [NameMap.lookupEntry, hn]

/-- **Products add exponents.** -/
theorem exponent_mul : (d.mul other).exponent name = d.exponent name + other.exponent name :=
  exponent_foldl_accumulate d name other.exponents.sorted

theorem lookupEntry_map (f : Exponent → Exponent) (es : List (String × Exponent)) :
    NameMap.lookupEntry name (es.map fun e => (e.1, f e.2)) = (NameMap.lookupEntry name es).map f := by
  induction es with
  | nil => rfl
  | cons e rest ih =>
    by_cases hn : name = e.1
    · simp [NameMap.lookupEntry, hn]
    · simp [NameMap.lookupEntry, hn, ih]

/-- What keeps 0 may be done to all entries. -/
theorem exponent_ofList_map (f : Exponent → Exponent) (hf : f 0 = 0) :
    (ofList (d.entries.map fun e => (e.1, f e.2))).exponent name = f (d.exponent name) := by
  have hsorted : (d.entries.map fun e => (e.1, f e.2)).Pairwise (fun a b => a.1 < b.1) :=
    List.pairwise_map.mpr d.exponents.sorted
  rw [ofList, exponent_foldl_accumulate _ _ hsorted, exponent_dimensionless, lookupEntry_map, exponent_eq_lookupEntry]
  cases NameMap.lookupEntry name d.entries <;> simp [hf]

/-- **Powers multiply exponents.** -/
theorem exponent_pow (n : Exponent) : (d.pow n).exponent name = d.exponent name * n :=
  d.exponent_ofList_map name (· * n) (Exponent.zero_mul n)

@[simp]
theorem pow_one : d.pow 1 = d := by
  refine ext_exponent fun name => ?_
  rw [exponent_pow, Exponent.mul_one]

@[simp]
theorem dimensionless_mul : dimensionless.mul d = d := by
  refine ext_exponent fun name => ?_
  rw [exponent_mul, exponent_dimensionless, Exponent.zero_add]

/-- **One base unit after the other** or all at once: the power of a dimension is multiplied in. -/
theorem mulPow_eq (n : Exponent) : d.mulPow other n = d.mul (other.pow n) := by
  have hsorted : (other.entries.map fun e => (e.1, e.2 * n)).Pairwise (fun a b => a.1 < b.1) :=
    List.pairwise_map.mpr other.exponents.sorted
  have hloop : d.mulPow other n =
      (other.entries.map fun e => (e.1, e.2 * n)).foldl (fun d e => d.accumulate e.1 e.2) d := by
    rw [mulPow, List.foldl_map]
  refine ext_exponent fun name => ?_
  rw [hloop, exponent_foldl_accumulate _ _ hsorted, lookupEntry_map name (· * n), exponent_mul, exponent_pow,
    exponent_eq_lookupEntry other]
  cases NameMap.lookupEntry name other.entries with
  | none => rw [Option.map_none, Option.getD_none, Exponent.zero_mul]
  | some e => rfl

/-! ### Base units -/

theorem exponent_base (n : String) (e : Exponent) : (base n e).exponent name = if name = n then e else 0 :=
  exponent_setExponent dimensionless n name e

/-- A power of a base unit is one factor. -/
theorem mul_pow_base (n : String) (e : Exponent) : d.mul ((base n 1).pow e) = d.accumulate n e := by
  refine ext_exponent fun name => ?_
  rw [exponent_mul, exponent_pow, exponent_base, exponent_accumulate]
  by_cases h : name = n <;> simp [h]

theorem ofList_append_singleton (es : List (String × Exponent)) (e : String × Exponent) :
    ofList (es ++ [e]) = (ofList es).accumulate e.1 e.2 := by
  rw [ofList, List.foldl_append]
  rfl

theorem exponent_ofMap (m : NameMap Exponent) : (ofList m.entries).exponent name = (m.get? name).getD 0 := by
  rw [ofList, exponent_foldl_accumulate _ _ m.sorted, exponent_dimensionless, Exponent.zero_add]
  rfl

/-- A dimension is the product of its entries. -/
theorem ofList_entries : ofList d.entries = d :=
  ext_exponent fun name => exponent_ofMap name d.exponents

end Dimension
end Dimensional
