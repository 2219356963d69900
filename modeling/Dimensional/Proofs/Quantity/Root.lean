import Dimensional.Proofs.Dimension.Exponents
import Dimensional.Quantity

/-!
# Square roots of quantities

Halving undoes doubling wherever doubling stays in range, and the half of an even exponent can always be doubled: the
halves reach from `-2^62` to `2^62 - 1`. So the units of a square root are the only ones whose square is given.

A number is negative if it has a sign (`Decimal.IsNegative`). That is more than to be below zero: a product that is
rounded down to zero may keep its sign, and it is shown with it and has no square root.

The main statement is `Quantity.sqrt_inverts_square`.
-/

namespace Dimensional

/-! ### Halves of exponents -/

namespace Exponent

variable {a : Exponent}

theorem isEven_iff : a.isEven = true ↔ 2 ∣ a.val := by
  rw [isEven, beq_iff_eq]
  omega

theorem val_half {k : Int} (h : a.val = 2 * k) : a.half.val = k := by
  have hlower := a.lower
  have hupper := a.upper
  have hdiv : a.val.tdiv 2 = k := by rw [h, Int.mul_tdiv_cancel_left k (by decide)]
  rw [half, hdiv]
  apply val_ofInt_of_mem <;> simp only [least, greatest] <;> omega

/-- An even exponent is twice its half. -/
theorem half_add_half (h : 2 ∣ a.val) : a.half + a.half = a := by
  obtain ⟨k, hk⟩ := h
  have hlower := a.lower
  have hupper := a.upper
  ext
  rw [val_add, val_half hk]
  simp only [least, greatest]
  omega

theorem half_ne_zero (h : 2 ∣ a.val) (ha : a ≠ 0) : a.half ≠ 0 := by
  intro hzero
  have hdouble := half_add_half h
  rw [hzero, zero_add] at hdouble
  exact ha hdouble.symm

theorem val_add_self (hlower : least ≤ 2 * a.val) (hupper : 2 * a.val ≤ greatest) : (a + a).val = 2 * a.val := by
  rw [val_add]
  omega

/-- Half of an exponent that can be doubled, doubled. -/
theorem half_add_self (hlower : least ≤ 2 * a.val) (hupper : 2 * a.val ≤ greatest) : (a + a).half = a :=
  Exponent.ext (val_half (val_add_self hlower hupper))

end Exponent

/-! ### Halves of dimensions -/

namespace Dimension

variable {d : Dimension} {e : String × Exponent}

def IsEven (d : Dimension) : Prop := ∀ e ∈ d.entries, 2 ∣ e.2.val

instance (d : Dimension) : Decidable d.IsEven := inferInstanceAs (Decidable (∀ e ∈ d.entries, 2 ∣ e.2.val))

/-- The entry with an odd exponent whose name comes first. -/
structure FirstOdd (d : Dimension) (e : String × Exponent) : Prop where
  mem : e ∈ d.entries
  odd : ¬ 2 ∣ e.2.val
  first : ∀ e' ∈ d.entries, e'.1 < e.1 → 2 ∣ e'.2.val

theorem IsEven.exponent (h : d.IsEven) (name : String) : 2 ∣ (d.exponent name).val := by
  cases hg : d.exponents.get? name with
  | none =>
    rw [Dimension.exponent, hg]
    exact Int.dvd_zero 2
  | some e =>
    have hmem : (name, e) ∈ d.entries := NameMap.get?_eq_some_iff.mp hg
    rw [exponent_of_mem hmem]
    exact h _ hmem

/-- The product of the halves of an even dimension. -/
theorem entries_halves (h : d.IsEven) :
    (ofList (d.entries.map fun e => (e.1, e.2.half))).entries = d.entries.map fun e => (e.1, e.2.half) := by
  have hsorted : (d.entries.map fun e => (e.1, e.2.half)).Pairwise (fun a b => a.1 < b.1) :=
    List.pairwise_map.mpr d.exponents.sorted
  have hnonzero : ∀ e ∈ d.entries.map fun e => (e.1, e.2.half), e.2 ≠ 0 := by
    intro e he
    obtain ⟨e', he', rfl⟩ := List.mem_map.mp he
    exact Exponent.half_ne_zero (h e' he') (d.nonzero e' he')
  exact congrArg entries (ofList_entries ⟨⟨_, hsorted⟩, hnonzero⟩)

theorem halves_mul_halves (h : d.IsEven) :
    (ofList (d.entries.map fun e => (e.1, e.2.half))).mul (ofList (d.entries.map fun e => (e.1, e.2.half))) = d := by
  refine ext_exponent fun name => ?_
  rw [exponent_mul, exponent_ofList_map d name Exponent.half rfl]
  exact Exponent.half_add_half (h.exponent name)

/-! ### Odd exponents -/

theorem find?_eq_none_iff : d.entries.find? (fun e => !e.2.isEven) = none ↔ d.IsEven := by
  simp [IsEven, Exponent.isEven_iff]

theorem firstOdd_of_find? (h : d.entries.find? (fun e => !e.2.isEven) = some e) : d.FirstOdd e := by
  obtain ⟨hodd, before, behind, hsplit, heven⟩ := List.find?_eq_some_iff_append.mp h
  have hsorted : (before ++ e :: behind).Pairwise (fun a b => a.1 < b.1) := hsplit ▸ d.exponents.sorted
  refine ⟨List.mem_of_find?_eq_some h, ?_, fun e' he' hlt => ?_⟩
  · rw [← Exponent.isEven_iff]
    simpa using hodd
  · rw [hsplit, List.mem_append, List.mem_cons] at he'
    rcases he' with hbefore | rfl | hbehind
    · rw [← Exponent.isEven_iff]
      simpa using heven e' hbefore
    · exact absurd hlt (String.lt_irrefl _)
    · have hgt := (List.pairwise_cons.mp (List.pairwise_append.mp hsorted).2.1).1 e' hbehind
      exact absurd (String.lt_trans hlt hgt) (String.lt_irrefl _)

end Dimension

/-! ### Roots of numbers -/

namespace Decimal

variable {a : Decimal}

/-- A number is below zero, or a zero that has kept a sign. -/
def IsNegative (a : Decimal) : Prop := a.coefficient < 0 ∨ a.negative = true ∧ a.isZero = true

instance (a : Decimal) : Decidable a.IsNegative :=
  inferInstanceAs (Decidable (a.coefficient < 0 ∨ a.negative = true ∧ a.isZero = true))

theorem isNegative_iff : a.IsNegative ↔ a.negative = true := by
  cases hn : a.negative with
  | false => simp [IsNegative, coefficient, hn]
  | true =>
    have hcases : a.magnitude = 0 ∨ 0 < a.magnitude := Nat.eq_zero_or_pos _
    simp only [IsNegative, coefficient, isZero, hn, if_true, true_and, beq_iff_eq, iff_true, Int.ofNat_eq_natCast]
    omega

/-- Numbers without a sign have square roots. -/
theorem sqrt_eq_none_iff : a.sqrt = none ↔ a.IsNegative := by
  rw [isNegative_iff, sqrt]
  by_cases hn : a.negative = true
  · simp [hn]
  · simp only [hn, Bool.false_eq_true, if_false, iff_false]
    split <;> exact Option.some_ne_none _

end Decimal

/-! ### Roots of quantities -/

namespace Quantity

variable {q r : Quantity} {e : String × Exponent} {v : Decimal} {w : Dimension}

theorem sqrt_of_find? (h : q.units.entries.find? (fun e => !e.2.isEven) = some e) :
    q.sqrt = .error (.invalidOperation (.oddExponent q.units.display e.2.val e.1)) := by
  rw [sqrt, h]

theorem sqrt_of_isEven (h : q.units.IsEven) :
    q.sqrt = match q.value.sqrt with
      | none => .error (.invalidOperation (.negativeRoot q.value))
      | some v => .ok ⟨v, .ofList (q.units.entries.map fun e => (e.1, e.2.half))⟩ := by
  have hfind := Dimension.find?_eq_none_iff.mpr h
  cases hv : q.value.sqrt <;> simp [sqrt, hfind, hv]

/-- **Odd exponents are told first**, and of several the one whose name comes first. -/
theorem exists_sqrt_eq_error (h : ¬ q.units.IsEven) :
    ∃ e, q.units.FirstOdd e ∧ q.sqrt = .error (.invalidOperation (.oddExponent q.units.display e.2.val e.1)) := by
  cases hfind : q.units.entries.find? (fun e => !e.2.isEven) with
  | none => exact absurd (Dimension.find?_eq_none_iff.mp hfind) h
  | some e => exact ⟨e, Dimension.firstOdd_of_find? hfind, sqrt_of_find? hfind⟩

theorem sqrt_of_isNegative (h : q.units.IsEven) (hv : q.value.IsNegative) :
    q.sqrt = .error (.invalidOperation (.negativeRoot q.value)) := by
  rw [sqrt_of_isEven h, Decimal.sqrt_eq_none_iff.mpr hv]

theorem exists_sqrt_eq_ok (h : q.units.IsEven) (hv : ¬ q.value.IsNegative) :
    ∃ v, q.value.sqrt = some v ∧ q.sqrt = .ok ⟨v, .ofList (q.units.entries.map fun e => (e.1, e.2.half))⟩ := by
  obtain ⟨v, hroot⟩ := Option.ne_none_iff_exists'.mp (mt Decimal.sqrt_eq_none_iff.mp hv)
  exact ⟨v, hroot, by rw [sqrt_of_isEven h, hroot]⟩

theorem sqrt_eq_ok_iff : (∃ r, q.sqrt = .ok r) ↔ q.units.IsEven ∧ ¬ q.value.IsNegative := by
  constructor
  · rintro ⟨r, hr⟩
    by_cases h : q.units.IsEven
    · refine ⟨h, fun hv => ?_⟩
      rw [sqrt_of_isNegative h hv] at hr
      cases hr
    · obtain ⟨e, -, he⟩ := exists_sqrt_eq_error h
      rw [he] at hr
      cases hr
  · rintro ⟨h, hv⟩
    obtain ⟨v, -, hr⟩ := exists_sqrt_eq_ok h hv
    exact ⟨_, hr⟩

/-- The units of a root, multiplied with themselves. -/
theorem units_of_sqrt (h : q.sqrt = .ok r) :
    r.units.mul r.units = q.units ∧ r.units.exponents.names = q.units.exponents.names ∧
      q.value.sqrt = some r.value := by
  obtain ⟨heven, hv⟩ := sqrt_eq_ok_iff.mp ⟨r, h⟩
  obtain ⟨v, hroot, hr⟩ := exists_sqrt_eq_ok heven hv
  obtain rfl : r = _ := Except.ok.inj (h.symm.trans hr)
  refine ⟨Dimension.halves_mul_halves heven, ?_, hroot⟩
  have hentries := congrArg (List.map Prod.fst) (Dimension.entries_halves heven)
  rw [List.map_map] at hentries
  exact hentries

/-- The root of units multiplied with themselves. -/
theorem sqrt_mul_self (hv : ¬ v.IsNegative)
    (hw : ∀ name, Exponent.least ≤ 2 * (w.exponent name).val ∧ 2 * (w.exponent name).val ≤ Exponent.greatest) :
    ∃ r, Quantity.sqrt ⟨v, w.mul w⟩ = .ok r ∧ r.units = w := by
  have heven : (w.mul w).IsEven := by
    intro e he
    obtain ⟨hlower, hupper⟩ := hw e.1
    rw [← Dimension.exponent_of_mem he, Dimension.exponent_mul, Exponent.val_add_self hlower hupper]
    exact Int.dvd_mul_right 2 _
  obtain ⟨u, -, hr⟩ := exists_sqrt_eq_ok (q := ⟨v, w.mul w⟩) heven hv
  refine ⟨_, hr, Dimension.ext_exponent fun name => ?_⟩
  rw [Dimension.exponent_ofList_map _ name Exponent.half rfl, Dimension.exponent_mul]
  exact Exponent.half_add_self (hw name).1 (hw name).2

/-- **The square root undoes squaring.** A quantity has one exactly if all its exponents are even and its value is not
negative; an odd exponent is told in preference to a negative value. The units of the root have the same names, and
multiplied with themselves they are the given ones; units whose exponents can be doubled are the root of their
square. -/
theorem sqrt_inverts_square :
    (∀ q : Quantity, (∃ r, q.sqrt = .ok r) ↔ q.units.IsEven ∧ ¬ q.value.IsNegative) ∧
    (∀ q : Quantity, ¬ q.units.IsEven → ∃ e, q.units.FirstOdd e ∧
      q.sqrt = .error (.invalidOperation (.oddExponent q.units.display e.2.val e.1))) ∧
    (∀ q : Quantity, q.units.IsEven → q.value.IsNegative → q.sqrt = .error (.invalidOperation (.negativeRoot q.value))) ∧
    (∀ q r : Quantity, q.sqrt = .ok r → r.units.mul r.units = q.units ∧
      r.units.exponents.names = q.units.exponents.names ∧ q.value.sqrt = some r.value) ∧
    ∀ (v : Decimal) (w : Dimension), ¬ v.IsNegative →
      (∀ name, Exponent.least ≤ 2 * (w.exponent name).val ∧ 2 * (w.exponent name).val ≤ Exponent.greatest) →
        ∃ r, Quantity.sqrt ⟨v, w.mul w⟩ = .ok r ∧ r.units = w :=
  ⟨fun _ => sqrt_eq_ok_iff, fun _ => exists_sqrt_eq_error, fun _ => sqrt_of_isNegative, fun _ _ => units_of_sqrt,
    fun _ _ => sqrt_mul_self⟩

/-- Square metres have a root, metres squared per second have none, and neither have square metres below zero. Metres
to the power `-2^62` are the root of the least power. -/
theorem sqrt_inverts_square_metres :
    (∃ r, Quantity.sqrt ⟨.one, .base "m" 2⟩ = .ok r ∧ r.units.mul r.units = .base "m" 2) ∧
    (∃ e, (Dimension.ofList [("m", 2), ("s", -1)]).FirstOdd e ∧
      Quantity.sqrt ⟨.one, .ofList [("m", 2), ("s", -1)]⟩ = .error (.invalidOperation
        (.oddExponent (Dimension.ofList [("m", 2), ("s", -1)]).display e.2.val e.1))) ∧
    Quantity.sqrt ⟨Decimal.one.neg, .base "m" 2⟩ = .error (.invalidOperation (.negativeRoot Decimal.one.neg)) ∧
    ∃ r, Quantity.sqrt ⟨.one, (Dimension.base "m" (.ofInt (-4611686018427387904))).mul
      (Dimension.base "m" (.ofInt (-4611686018427387904)))⟩ = .ok r ∧
      r.units = .base "m" (.ofInt (-4611686018427387904)) := by
  obtain ⟨hsucceeds, hodd, hnegative, hsquare, hroot⟩ := sqrt_inverts_square
  obtain ⟨r, hr⟩ := (hsucceeds ⟨.one, .base "m" 2⟩).mpr (by decide +kernel)
  refine ⟨⟨r, hr, (hsquare _ r hr).1⟩, hodd ⟨.one, _⟩ (by decide +kernel),
    hnegative ⟨Decimal.one.neg, .base "m" 2⟩ (by decide +kernel) (by decide), hroot .one _ (by decide) fun name => ?_⟩
  rw [Dimension.exponent_base]
  split <;> decide

end Quantity
end Dimensional
