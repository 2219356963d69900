import Dimensional.Proofs.Dimension.Exact
import Dimensional.Proofs.Dimension.Inverse
import Mathlib.Data.List.Induction

/-!
# The algebra of dimensions

Products commute whatever their exponents are. The other laws of a module over the integers hold where, for each name
alone, the sizes of the exponents that occur in them stay in the range of exponents: nothing stops at an end of the range
then, and exponents that cancel on the way come back as they were. A list of powers may be multiplied in any order under
the same condition (`val_exponent_ofList`).

The main statement is `module_laws`.
-/

namespace Dimensional

namespace Dimension

variable {a b c : Dimension} {j k l : Exponent} {es es' : List (String × Exponent)} {name : String}

/-! ### Products and powers -/

theorem mul_comm (a b : Dimension) : a.mul b = b.mul a := by
  refine ext_exponent fun n => ?_
  rw [exponent_mul, exponent_mul, Exponent.add_comm]

theorem mul_assoc_of_size_le
    (h : ∀ n, (a.exponent n).size + (b.exponent n).size + (c.exponent n).size ≤ Exponent.greatest) :
    (a.mul b).mul c = a.mul (b.mul c) := by
  refine ext_exponent fun n => ?_
  simp only [exponent_mul]
  exact Exponent.add_assoc_of_size_le (h n)

theorem div_mul_of_size_le (h : ∀ n, (a.exponent n).size + (b.exponent n).size ≤ Exponent.greatest) :
    (a.div b).mul b = a := by
  refine ext_exponent fun n => ?_
  rw [exponent_mul, div, exponent_mul, exponent_inverse]
  exact Exponent.add_mul_neg_one_add (h n)

theorem mul_pow_of_size_le
    (h : ∀ n, k.size * ((a.exponent n).size + (b.exponent n).size) ≤ Exponent.greatest) :
    (a.mul b).pow k = (a.pow k).mul (b.pow k) := by
  refine ext_exponent fun n => ?_
  simp only [exponent_mul, exponent_pow]
  exact Exponent.add_mul_of_size_le (h n)

theorem pow_mul_pow_of_size_le (hl : l.val = j.val + k.val)
    (h : ∀ n, (a.exponent n).size * (j.size + k.size) ≤ Exponent.greatest) :
    (a.pow j).mul (a.pow k) = a.pow l := by
  refine ext_exponent fun n => ?_
  simp only [exponent_mul, exponent_pow]
  exact Exponent.mul_add_of_size_le hl (h n)

theorem pow_pow_of_size_le (hl : l.val = j.val * k.val)
    (h : ∀ n, (a.exponent n).size * j.size * k.size ≤ Exponent.greatest) : (a.pow j).pow k = a.pow l := by
  refine ext_exponent fun n => ?_
  simp only [exponent_pow]
  exact Exponent.mul_mul_of_size_le hl (h n)

/-! ### Lists of powers -/

/-- The sum of a measure of the exponents that a list gives to a name. -/
def sumAt (measure : Exponent → Int) (name : String) (es : List (String × Exponent)) : Int :=
  es.foldr (fun e total => (if e.1 = name then measure e.2 else 0) + total) 0

variable {measure : Exponent → Int}

theorem sumAt_cons (measure : Exponent → Int) (name : String) (e : String × Exponent) (es : List (String × Exponent)) :
    sumAt measure name (e :: es) = (if e.1 = name then measure e.2 else 0) + sumAt measure name es := rfl

theorem sumAt_append_singleton (measure : Exponent → Int) (name : String) (es : List (String × Exponent))
    (e : String × Exponent) :
    sumAt measure name (es ++ [e]) = sumAt measure name es + if e.1 = name then measure e.2 else 0 := by
  induction es with
  | nil => exact Int.add_comm _ 0
  | cons d es ih => rw [List.cons_append, sumAt_cons, sumAt_cons, ih, Int.add_assoc]

theorem sumAt_perm (h : es.Perm es') : sumAt measure name es = sumAt measure name es' := by
  induction h with
  | nil => rfl
  | cons e _ ih => rw [sumAt_cons, sumAt_cons, ih]
  | swap e e' es =>
    rw [sumAt_cons, sumAt_cons, sumAt_cons, sumAt_cons]
    exact Int.add_left_comm _ _ _
  | trans _ _ ih ih' => exact ih.trans ih'

theorem abs_sumAt_le (name : String) (es : List (String × Exponent)) :
    |sumAt Exponent.val name es| ≤ sumAt Exponent.size name es := by
  induction es with
  | nil => exact Int.le_refl 0
  | cons e es ih =>
    rw [sumAt_cons, sumAt_cons]
    refine (abs_add_le _ _).trans (add_le_add ?_ ih)
    split
    · exact Int.le_refl _
    · exact Int.le_of_eq abs_zero

/-- **The exponents of a list add up** where their sizes stay in range, also if they cancel on the way. -/
theorem val_exponent_ofList (h : sumAt Exponent.size name es ≤ Exponent.greatest) :
    ((ofList es).exponent name).val = sumAt Exponent.val name es := by
  induction es using List.reverseRecOn with
  | nil => rfl
  | append_singleton es e ih =>
    have hbound := abs_sumAt_le name (es ++ [e])
    have hsizes := sumAt_append_singleton Exponent.size name es e
    have hvals := sumAt_append_singleton Exponent.val name es e
    rw [ofList_append_singleton, exponent_accumulate]
    by_cases hname : name = e.1
    · rw [if_pos hname.symm] at hsizes hvals
      have hlast := e.2.size_nonneg
      have hfront := ih (by omega)
      rw [if_pos hname, ← hname, Exponent.val_add_of_abs_le] <;> rw [hfront, ← hvals]
      exact hbound.trans h
    · rw [if_neg (Ne.symm hname), Int.add_zero] at hsizes hvals
      rw [if_neg hname, hvals]
      exact ih (hsizes ▸ h)

theorem ofList_perm (h : es.Perm es') (hb : ∀ n, sumAt Exponent.size n es ≤ Exponent.greatest) :
    ofList es = ofList es' := by
  refine ext_exponent fun n => Exponent.ext ?_
  rw [val_exponent_ofList (hb n), val_exponent_ofList ((sumAt_perm h).symm.trans_le (hb n)), sumAt_perm h]

/-! ### The laws together -/

/-- **Dimensions form a module over the integers as far as exponents reach.** Products commute. Where the sizes of the
exponents that are involved stay in range for every name, they are associative, division is undone by multiplication,
powers distribute over products and over sums and products of exponents, and powers may be collected in any order. -/
theorem module_laws :
    (∀ a b : Dimension, a.mul b = b.mul a) ∧
    (∀ a b c : Dimension,
      (∀ n, (a.exponent n).size + (b.exponent n).size + (c.exponent n).size ≤ Exponent.greatest) →
        (a.mul b).mul c = a.mul (b.mul c)) ∧
    (∀ a b : Dimension, (∀ n, (a.exponent n).size + (b.exponent n).size ≤ Exponent.greatest) →
      (a.div b).mul b = a) ∧
    (∀ (a b : Dimension) (k : Exponent),
      (∀ n, k.size * ((a.exponent n).size + (b.exponent n).size) ≤ Exponent.greatest) →
        (a.mul b).pow k = (a.pow k).mul (b.pow k)) ∧
    (∀ (a : Dimension) (j k l : Exponent), l.val = j.val + k.val →
      (∀ n, (a.exponent n).size * (j.size + k.size) ≤ Exponent.greatest) →
        (a.pow j).mul (a.pow k) = a.pow l) ∧
    (∀ (a : Dimension) (j k l : Exponent), l.val = j.val * k.val →
      (∀ n, (a.exponent n).size * j.size * k.size ≤ Exponent.greatest) → (a.pow j).pow k = a.pow l) ∧
    (∀ es es' : List (String × Exponent), es.Perm es' →
      (∀ n, sumAt Exponent.size n es ≤ Exponent.greatest) → ofList es = ofList es') :=
  ⟨mul_comm, fun _ _ _ => mul_assoc_of_size_le, fun _ _ => div_mul_of_size_le, fun _ _ _ => mul_pow_of_size_le,
    fun _ _ _ _ => pow_mul_pow_of_size_le, fun _ _ _ _ => pow_pow_of_size_le, fun _ _ => ofList_perm⟩

/-- Up to the last exponent in range: the sizes of the two powers of a metre add up to the greatest exponent. -/
theorem module_laws_metre :
    let a := base "m" 4611686018427387904
    let b := base "m" (-4611686018427387903)
    let c := base "s" 9223372036854775807
    let es := [("m", (4611686018427387904 : Exponent)), ("s", 2), ("m", -4611686018427387903)]
    a.mul b = b.mul a ∧
    ((∀ n, (a.exponent n).size + (b.exponent n).size + (c.exponent n).size ≤ Exponent.greatest) ∧
      (a.mul b).mul c = a.mul (b.mul c)) ∧
    ((∀ n, (a.exponent n).size + (b.exponent n).size ≤ Exponent.greatest) ∧ (a.div b).mul b = a) ∧
    ((∀ n, (-1 : Exponent).size * ((a.exponent n).size + (b.exponent n).size) ≤ Exponent.greatest) ∧
      (a.mul b).pow (-1) = (a.pow (-1)).mul (b.pow (-1))) ∧
    ((3 : Exponent).val = (4 : Exponent).val + (-1 : Exponent).val ∧
      (∀ n, ((base "m" 2).exponent n).size * ((4 : Exponent).size + (-1 : Exponent).size) ≤ Exponent.greatest) ∧
      ((base "m" 2).pow 4).mul ((base "m" 2).pow (-1)) = (base "m" 2).pow 3) ∧
    ((0 : Exponent).val = (7 : Exponent).val * (0 : Exponent).val ∧
      (∀ n, (c.exponent n).size * (7 : Exponent).size * (0 : Exponent).size ≤ Exponent.greatest) ∧
      (c.pow 7).pow 0 = c.pow 0) ∧
    ((∀ n, sumAt Exponent.size n es ≤ Exponent.greatest) ∧ ofList es = ofList es.reverse) := by
  intro a b c es
  have habc : ∀ n, (a.exponent n).size + (b.exponent n).size + (c.exponent n).size ≤ Exponent.greatest := by
    intro n
    simp only [a, b, c, exponent_base]
    by_cases hm : n = "m"
    · subst hm; decide
    · by_cases hs : n = "s"
      · subst hs; decide
      · simp only [hm, hs, if_false]; decide
  have hab : ∀ n, (a.exponent n).size + (b.exponent n).size ≤ Exponent.greatest := by
    intro n
    have := habc n
    have := (c.exponent n).size_nonneg
    omega
  have hinverse : ∀ n, (-1 : Exponent).size * ((a.exponent n).size + (b.exponent n).size) ≤ Exponent.greatest := by
    intro n
    rw [Exponent.size_neg_one, Int.one_mul]
    exact hab n
  have hsquare : ∀ n, ((base "m" 2).exponent n).size * ((4 : Exponent).size + (-1 : Exponent).size) ≤
      Exponent.greatest := by
    intro n
    rw [exponent_base]
    split <;> decide
  have hzero : ∀ n, (c.exponent n).size * (7 : Exponent).size * (0 : Exponent).size ≤ Exponent.greatest := by
    intro n
    simp only [c, exponent_base]
    split <;> decide
  have hes : ∀ n, sumAt Exponent.size n es ≤ Exponent.greatest := by
    intro n
    simp only [es, sumAt, List.foldr]
    by_cases hm : n = "m"
    · subst hm; decide
    · by_cases hs : n = "s"
      · subst hs; decide
      · simp only [Ne.symm hm, Ne.symm hs, if_false]; decide
  exact ⟨module_laws.1 a b,
    ⟨habc, module_laws.2.1 a b c habc⟩,
    ⟨hab, module_laws.2.2.1 a b hab⟩,
    ⟨hinverse, module_laws.2.2.2.1 a b (-1) hinverse⟩,
    ⟨by decide, hsquare, module_laws.2.2.2.2.1 _ 4 (-1) 3 (by decide) hsquare⟩,
    ⟨by decide, hzero, module_laws.2.2.2.2.2.1 c 7 0 0 (by decide) hzero⟩,
    ⟨hes, module_laws.2.2.2.2.2.2 es es.reverse (List.reverse_perm es).symm hes⟩⟩

end Dimension
end Dimensional
