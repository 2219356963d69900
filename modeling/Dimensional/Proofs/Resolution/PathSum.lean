import Dimensional.Proofs.Dimension.Exact
import Dimensional.Proofs.Resolution.Path

/-!
# Resolved exponents are sums over paths

The exponent of a base unit in a resolved expression is the sum, over the terms and the paths from them down to the base
unit, of the products of the exponents on the way (`exponents_are_path_sums`), provided that the sum of the sizes of
these products stays in the range of exponents. No arithmetic on the way stops at an end of the range then: what it
deals with is a part of the sum, or is taken to the power 0 later on.
-/

namespace Dimensional

namespace Dimension

variable {den : String → Dimension} {S A : String → Int} {powers : List (String × Exponent)} {b : String}

theorem abs_sum_le (hSA : ∀ q ∈ powers, |S q.1| ≤ A q.1) :
    |(powers.map fun q => q.2.val * S q.1).sum| ≤ (powers.map fun q => q.2.size * A q.1).sum := by
  induction powers with
  | nil => simp
  | cons q powers ih =>
    have hq : |q.2.val * S q.1| ≤ q.2.size * A q.1 := by
      rw [abs_mul]
      exact mul_le_mul_of_nonneg_left (hSA q (by simp)) (abs_nonneg _)
    have hrest := ih fun p hp => hSA p (List.mem_cons_of_mem _ hp)
    rw [List.map_cons, List.map_cons, List.sum_cons, List.sum_cons]
    exact (abs_add_le _ _).trans (add_le_add hq hrest)

/-- **A product is exact where its sizes stay in range.** Each factor need be exact only if its own size is in range,
since a factor that is too large can only occur to the power 0. -/
theorem val_exponent_productOf (hSA : ∀ q ∈ powers, |S q.1| ≤ A q.1)
    (hexact : ∀ q ∈ powers, A q.1 ≤ Exponent.greatest → ((den q.1).exponent b).val = S q.1)
    (hsum : (powers.map fun q => q.2.size * A q.1).sum ≤ Exponent.greatest) :
    ((productOf den powers).exponent b).val = (powers.map fun q => q.2.val * S q.1).sum := by
  induction powers using List.reverseRecOn with
  | nil => rfl
  | append_singleton powers q ih =>
    have hfront : ∀ p ∈ powers, p ∈ powers ++ [q] := fun p hp => List.mem_append_left _ hp
    have hSAq : |S q.1| ≤ A q.1 := hSA q (by simp)
    have hA : 0 ≤ A q.1 := (abs_nonneg _).trans hSAq
    have hsize : 0 ≤ q.2.size := abs_nonneg _
    have hbound := abs_sum_le fun p hp => hSA p (hfront p hp)
    have hfirst : 0 ≤ (powers.map fun p => p.2.size * A p.1).sum := (abs_nonneg _).trans hbound
    simp only [List.map_append, List.map_cons, List.map_nil, List.sum_append, List.sum_singleton] at hsum ⊢
    have hlast : 0 ≤ q.2.size * A q.1 := mul_nonneg hsize hA
    have hpowers := ih (fun p hp => hSA p (hfront p hp)) (fun p hp => hexact p (hfront p hp)) (by omega)
    -- the last factor is exact, unless it is taken to the power 0
    have hvalue : ((den q.1).exponent b).val * q.2.val = q.2.val * S q.1 := by
      rcases eq_or_ne q.2.val 0 with hzero | hne
      · rw [hzero, Int.mul_zero, Int.zero_mul]
      · have hone : 1 ≤ q.2.size := Int.one_le_abs hne
        have hrange : A q.1 ≤ q.2.size * A q.1 := le_mul_of_one_le_left hA hone
        rw [hexact q (by simp) (by omega), Int.mul_comm]
    have hproduct : |q.2.val * S q.1| ≤ q.2.size * A q.1 := by
      rw [abs_mul]
      exact mul_le_mul_of_nonneg_left hSAq hsize
    have hpow : (((den q.1).pow q.2).exponent b).val = q.2.val * S q.1 := by
      rw [exponent_pow, Exponent.val_mul_of_abs_le, hvalue]
      rw [hvalue]
      omega
    rw [productOf_append_singleton, exponent_mul, Exponent.val_add_of_abs_le, hpowers, hpow]
    rw [hpowers, hpow]
    have := abs_add_le (powers.map fun p => p.2.val * S p.1).sum (q.2.val * S q.1)
    omega

end Dimension

namespace UnitSystem

variable {system : UnitSystem} {n b : String} {d : Dimension} {powers : List (String × Exponent)}

theorem abs_pathSum_le (h : ∀ q ∈ powers, |system.total Exponent.val q.1 b| ≤ system.total Exponent.size q.1 b) :
    |system.pathSum Exponent.val powers b| ≤ system.pathSum Exponent.size powers b := by
  rw [pathSum_eq, pathSum_eq]
  exact Dimension.abs_sum_le (S := fun m => system.total Exponent.val m b)
    (A := fun m => system.total Exponent.size m b) h

theorem Denotes.abs_total_le (h : system.Denotes n d) (b : String) :
    |system.total Exponent.val n b| ≤ system.total Exponent.size n b := by
  refine h.induct (P := fun n => |system.total Exponent.val n b| ≤ system.total Exponent.size n b) ?_ ?_
  · intro n hb
    rw [total_base _ hb, total_base _ hb]
    split <;> decide
  · intro n d hd hc ih
    rw [hd.total_eq _ hc, hd.total_eq _ hc]
    exact abs_pathSum_le ih

theorem val_exponent_productOf {den : String → Dimension} (hden : ∀ q ∈ powers, system.Denotes q.1 (den q.1))
    (hexact : ∀ q ∈ powers, system.total Exponent.size q.1 b ≤ Exponent.greatest →
      ((den q.1).exponent b).val = system.total Exponent.val q.1 b)
    (hle : system.pathSum Exponent.size powers b ≤ Exponent.greatest) :
    ((Dimension.productOf den powers).exponent b).val = system.pathSum Exponent.val powers b := by
  rw [pathSum_eq] at hle ⊢
  exact Dimension.val_exponent_productOf (S := fun m => system.total Exponent.val m b)
    (A := fun m => system.total Exponent.size m b) (fun q hq => (hden q hq).abs_total_le b) hexact hle

/-- **The exponents of a name are its path sums**, where the sizes stay in range. -/
theorem Denotes.val_exponent (h : system.Denotes n d) (b : String) :
    system.total Exponent.size n b ≤ Exponent.greatest → (d.exponent b).val = system.total Exponent.val n b := by
  refine h.induct (P := fun n => ∀ d, system.Denotes n d → system.total Exponent.size n b ≤ Exponent.greatest →
    (d.exponent b).val = system.total Exponent.val n b) ?_ ?_ d h
  · intro n hb d hd _
    rw [hd.eq_base hb, Dimension.exponent_base, total_base _ hb]
    by_cases hn : n = b
    · rw [if_pos hn, if_pos hn.symm]
      rfl
    · rw [if_neg hn, if_neg (Ne.symm hn)]
      rfl
  · intro n _ hn hc ih d hd hle
    rw [hn.total_eq _ hc] at hle ⊢
    obtain ⟨den, hden, rfl⟩ := hd.factors hc
    exact val_exponent_productOf hden (fun q hq => ih q hq _ (hden q hq)) hle

theorem DenotesProduct.val_exponent (h : system.DenotesProduct powers d)
    (hle : system.pathSum Exponent.size powers b ≤ Exponent.greatest) :
    (d.exponent b).val = system.pathSum Exponent.val powers b := by
  obtain ⟨den, hden, rfl⟩ := h
  exact val_exponent_productOf hden (fun q hq => (hden q hq).val_exponent b) hle

/-! ### Bounds -/

theorem pathSum_size_le {W : String → Int} (h : ∀ q ∈ powers, system.total Exponent.size q.1 b ≤ W q.1) :
    system.pathSum Exponent.size powers b ≤ (powers.map fun q => q.2.size * W q.1).sum := by
  rw [pathSum_eq]
  exact List.sum_le_sum fun q hq => mul_le_mul_of_nonneg_left (h q hq) (abs_nonneg _)

/-- Bounds that no definition exceeds are bounds of all sums of sizes. -/
theorem Denotes.total_size_le {W : String → Int} (hW : ∀ n, 1 ≤ W n)
    (hbound : ∀ p ∈ system.entries, (p.2.factors.map fun q => q.2.size * W q.1).sum ≤ W p.1) (h : system.Denotes n d)
    (b : String) : system.total Exponent.size n b ≤ W n := by
  refine h.induct (P := fun n => system.total Exponent.size n b ≤ W n) ?_ ?_
  · intro n hb
    have hone := hW n
    rw [total_base _ hb]
    split <;> omega
  · intro n d hd hc ih
    rw [hd.total_eq _ hc]
    exact (pathSum_size_le ih).trans (hbound _ (mem_entries_of_compound hc))

theorem pathSum_of_compound (f : Exponent → Int) (hb : system.definition b ≠ .base)
    (powers : List (String × Exponent)) : system.pathSum f powers b = 0 := by
  have hempty : ∀ n, IsEmpty (system.Path b n) := by
    refine fun n => ⟨fun p => ?_⟩
    induction p with
    | base h => exact hb h
    | step i rest ih => exact ih
  simp [pathSum, finsum_of_isEmpty]

end UnitSystem

/-! ### Evaluation -/

namespace Evaluation

open UnitSystem

variable {system : UnitSystem} {e : Expression}

theorem val_exponent_units (h : ∀ t ∈ e, system.Regular t.name)
    (hle : ∀ b, system.definition b = .base →
      system.pathSum Exponent.size (e.map Term.power) b ≤ Exponent.greatest) (b : String) :
    ((of system e).units.exponent b).val = system.pathSum Exponent.val (e.map Term.power) b := by
  refine (substitutes_after h).1.val_exponent ?_
  -- no path leads to a name that is not a base unit, so its sums are 0
  by_cases hb : system.definition b = .base
  · exact hle b hb
  · rw [pathSum_of_compound _ hb]
    decide

/-- **Resolved exponents are sums over paths.** Where nothing that the terms lead to is on a cycle or refers to the
empty name, there are finitely many paths. If the sizes of the products along them add up to an exponent for each base
unit, then the exponent of each name is the sum of the products, a name whose sum is 0 does not occur, and the result is
the same for any order of the terms and of the references in the definitions. -/
theorem exponents_are_path_sums (h : ∀ t ∈ e, system.Regular t.name)
    (hle : ∀ b, system.definition b = .base →
      system.pathSum Exponent.size (e.map Term.power) b ≤ Exponent.greatest) :
    (∀ t ∈ e, ∀ b, Finite (system.Path b t.name)) ∧
    (∀ b, ((of system e).units.exponent b).val = system.pathSum Exponent.val (e.map Term.power) b ∧
      (system.pathSum Exponent.val (e.map Term.power) b = 0 → ∀ k, (b, k) ∉ (of system e).units.entries)) ∧
    ∀ (system' : UnitSystem) (e' : Expression), system.Rearranged system' →
      (e.map Term.power).Perm (e'.map Term.power) → (of system' e').units = (of system e).units := by
  have hdenotes := (substitutes_after h).1
  refine ⟨?_, ?_, ?_⟩
  · intro t ht b
    exact hdenotes.finite_path b t.power (List.mem_map_of_mem ht)
  · intro b
    have hval := val_exponent_units h hle b
    refine ⟨hval, fun hzero k hk => ?_⟩
    have hentry := Dimension.exponent_of_mem hk
    rw [hzero, hentry] at hval
    exact (of system e).units.nonzero _ hk (Exponent.ext hval)
  · intro system' e' hr hp
    have hregular : ∀ t ∈ e', system'.Regular t.name := by
      intro t ht
      obtain ⟨u, hu, heq⟩ := List.mem_map.mp (hp.mem_iff.mpr (List.mem_map_of_mem ht))
      have hname : u.name = t.name := congrArg Prod.fst heq
      exact hr.regular (hname ▸ h u hu)
    have hle' : ∀ b, system'.definition b = .base →
        system'.pathSum Exponent.size (e'.map Term.power) b ≤ Exponent.greatest := by
      intro b hb
      rw [← hr.pathSum_eq _ hp hdenotes b]
      exact hle b ((hr.base_iff b).mpr hb)
    refine Dimension.ext_exponent fun b => Exponent.ext ?_
    rw [val_exponent_units h hle, val_exponent_units hregular hle', hr.pathSum_eq _ hp hdenotes b]

/-- `newton` is on paths of both terms, and the exponents of `kg` and `s` are differences. -/
theorem exponents_are_path_sums_mechanics :
    let e : Expression := [⟨"Pa", 2, ⟨0, 2⟩⟩, ⟨"newton", -1, ⟨4, 10⟩⟩]
    (∀ t ∈ e, UnitSystem.mechanics.Regular t.name) ∧
    (∀ b, UnitSystem.mechanics.definition b = .base →
      UnitSystem.mechanics.pathSum Exponent.size (e.map Term.power) b ≤ Exponent.greatest) ∧
    (∀ t ∈ e, ∀ b, Finite (UnitSystem.mechanics.Path b t.name)) ∧
    (∀ b, ((of .mechanics e).units.exponent b).val = UnitSystem.mechanics.pathSum Exponent.val (e.map Term.power) b ∧
      (UnitSystem.mechanics.pathSum Exponent.val (e.map Term.power) b = 0 →
        ∀ k, (b, k) ∉ (of .mechanics e).units.entries)) ∧
    ∀ (system' : UnitSystem) (e' : Expression), UnitSystem.mechanics.Rearranged system' →
      (e.map Term.power).Perm (e'.map Term.power) → (of system' e').units = (of .mechanics e).units := by
  intro e
  have hregular : ∀ t ∈ e, UnitSystem.mechanics.Regular t.name := fun t _ => UnitSystem.regular_mechanics t.name
  have hle : ∀ b, UnitSystem.mechanics.definition b = .base →
      UnitSystem.mechanics.pathSum Exponent.size (e.map Term.power) b ≤ Exponent.greatest := by
    intro b _
    -- no definition of the system exceeds these bounds
    let W : String → Int := fun n => if n = "Pa" then 6 else if n = "N" ∨ n = "newton" then 4 else 1
    have hW : ∀ n, 1 ≤ W n := by
      intro n
      simp only [W]
      split_ifs <;> decide
    obtain ⟨den, hden, -⟩ := (substitutes_after hregular).1
    have hsum := UnitSystem.pathSum_size_le fun q hq => (hden q hq).total_size_le hW (by decide) b
    exact hsum.trans (by decide)
  exact ⟨hregular, hle, exponents_are_path_sums hregular hle⟩

end Evaluation
end Dimensional
