import Dimensional.Proofs.Resolution.Substitution
import Mathlib.Algebra.BigOperators.Finprod
import Mathlib.Algebra.BigOperators.Fin
import Mathlib.Data.Finite.Sigma
import Mathlib.Data.Fintype.BigOperators

/-!
# Expansion paths

A path leads from a name down to a base unit; at every definition on the way it takes one of the references
(`UnitSystem.Path`). A reference that a definition makes twice is on two paths.
-/

namespace Dimensional
namespace UnitSystem

/-- The ways from a name down to the base unit `b`. -/
inductive Path (system : UnitSystem) (b : String) : String → Type
  /-- A base unit is reached. -/
  | base (h : system.definition b = .base) : Path system b b
  /-- One of the references of a definition is taken. -/
  | step {n : String} (i : Fin (system.definition n).factors.length)
      (rest : Path system b (system.definition n).factors[i].1) : Path system b n

variable {system : UnitSystem} {b n : String} {d : Dimension} (f : Exponent → Int)

namespace Path

def exponents {n : String} : system.Path b n → List Exponent
  | .base _ => []
  | .step i rest => (system.definition n).factors[i].2 :: rest.exponents

/-- The product of the exponents along a path, as `f` counts them. -/
def weight (p : system.Path b n) : Int := (p.exponents.map f).prod

/-- A path from a compound name takes one reference first. -/
def firstStep (h : system.definition n ≠ .base) :
    system.Path b n ≃
      Σ i : Fin (system.definition n).factors.length, system.Path b (system.definition n).factors[i].1 where
  toFun
    | .base hb => absurd hb h
    | .step i rest => ⟨i, rest⟩
  invFun s := .step s.1 s.2
  left_inv p := by
    cases p with
    | base hb => exact absurd hb h
    | step i rest => rfl
  right_inv s := rfl

theorem eq_of_base (h : system.definition n = .base) (p : system.Path b n) : n = b := by
  cases p with
  | base hb => rfl
  | step i rest =>
    rw [h] at i
    exact i.elim0

theorem eq_base (h : system.definition b = .base) (p : system.Path b b) : p = .base h := by
  cases p with
  | base hb => rfl
  | step i rest =>
    rw [h] at i
    exact i.elim0

end Path

/-- The sum over the paths from a name to `b`. -/
noncomputable def total (system : UnitSystem) (n b : String) : Int :=
  ∑ᶠ p : system.Path b n, p.weight f

/-- The sum over some powers of names and all paths from the names to `b`, of the product of the power and the exponents
along the path, as `f` counts them. -/
noncomputable def pathSum (system : UnitSystem) (powers : List (String × Exponent)) (b : String) : Int :=
  (powers.map fun q => ∑ᶠ p : system.Path b q.1, f q.2 * p.weight f).sum

theorem pathSum_eq (powers : List (String × Exponent)) :
    system.pathSum f powers b = (powers.map fun q => f q.2 * system.total f q.1 b).sum := by
  simp only [pathSum, total, mul_finsum]

/-- The sum depends only on the sums for the names, and not on the order of the powers. -/
theorem pathSum_congr {system' : UnitSystem} {powers powers' : List (String × Exponent)} (hp : powers.Perm powers')
    (h : ∀ q ∈ powers, system.total f q.1 b = system'.total f q.1 b) :
    system.pathSum f powers b = system'.pathSum f powers' b := by
  rw [pathSum_eq, pathSum_eq]
  calc (powers.map fun q => f q.2 * system.total f q.1 b).sum
      = (powers.map fun q => f q.2 * system'.total f q.1 b).sum := by
        refine congrArg List.sum (List.map_congr_left fun q hq => ?_)
        rw [h q hq]
    _ = (powers'.map fun q => f q.2 * system'.total f q.1 b).sum := (hp.map _).sum_eq

/-! ### Sums over the paths from one name -/

theorem finite_path_of_base (h : system.definition n = .base) : Finite (system.Path b n) := by
  refine @Finite.of_subsingleton _ ⟨fun p q => ?_⟩
  obtain rfl := p.eq_of_base h
  rw [p.eq_base h, q.eq_base h]

theorem finite_path_of_factors (h : system.definition n ≠ .base)
    (hf : ∀ q ∈ (system.definition n).factors, Finite (system.Path b q.1)) : Finite (system.Path b n) := by
  have : ∀ i : Fin (system.definition n).factors.length, Finite (system.Path b (system.definition n).factors[i].1) :=
    fun i => hf _ (List.getElem_mem i.isLt)
  exact .of_equiv _ (Path.firstStep h).symm

theorem total_base (h : system.definition n = .base) : system.total f n b = if n = b then 1 else 0 := by
  split
  · next hn =>
    subst hn
    have hunique : Unique (system.Path n n) := ⟨⟨.base h⟩, Path.eq_base h⟩
    rw [total, finsum_unique, Path.eq_base h default]
    rfl
  · next hn =>
    have hempty : IsEmpty (system.Path b n) := ⟨fun p => hn (p.eq_of_base h)⟩
    rw [total, finsum_of_isEmpty]

/-- The paths from a compound name are those from its references. -/
theorem total_eq_pathSum (h : system.definition n ≠ .base)
    (hf : ∀ q ∈ (system.definition n).factors, Finite (system.Path b q.1)) :
    system.total f n b = system.pathSum f (system.definition n).factors b := by
  have : ∀ i : Fin (system.definition n).factors.length, Finite (system.Path b (system.definition n).factors[i].1) :=
    fun i => hf _ (List.getElem_mem i.isLt)
  have : ∀ i : Fin (system.definition n).factors.length, Fintype (system.Path b (system.definition n).factors[i].1) :=
    fun i => Fintype.ofFinite _
  -- the sum over the paths is the sum over the first steps of the sums over what is left of the paths
  rw [pathSum, total, ← finsum_comp_equiv (Path.firstStep h).symm, finsum_eq_sum_of_fintype, Fintype.sum_sigma,
    ← Fin.sum_univ_fun_getElem]
  refine Finset.sum_congr rfl fun i _ => ?_
  rw [finsum_eq_sum_of_fintype]
  rfl

/-- **A name that denotes a dimension has finitely many paths.** -/
theorem Denotes.finite_path (h : system.Denotes n d) (b : String) : Finite (system.Path b n) :=
  h.induct (fun _ hb => finite_path_of_base hb) fun _ _ _ hc ih => finite_path_of_factors hc ih

theorem DenotesProduct.finite_path {powers : List (String × Exponent)} (h : system.DenotesProduct powers d)
    (b : String) : ∀ q ∈ powers, Finite (system.Path b q.1) := by
  obtain ⟨den, hden, -⟩ := h
  intro q hq
  exact (hden q hq).finite_path b

theorem Denotes.total_eq (h : system.Denotes n d) (hb : system.definition n ≠ .base) (b : String) :
    system.total f n b = system.pathSum f (system.definition n).factors b :=
  total_eq_pathSum f hb ((h.factors hb).finite_path b)

/-! ### Rearranged definitions -/

/-- Two unit systems with the same base units whose definitions have the same references in some order. -/
structure Rearranged (system system' : UnitSystem) : Prop where
  base_iff : ∀ n, system.definition n = .base ↔ system'.definition n = .base
  perm : ∀ n, (system.definition n).factors.Perm (system'.definition n).factors

namespace Rearranged

variable {system' : UnitSystem}

theorem refers_eq (h : system.Rearranged system') : system.Refers = system'.Refers := by
  funext m r
  exact propext ((h.perm m).map Prod.fst).mem_iff

theorem regular (h : system.Rearranged system') (hn : system.Regular n) : system'.Regular n := by
  have hdepends : system.DependsOn = system'.DependsOn := by
    unfold DependsOn
    rw [h.refers_eq]
  unfold Regular Reaches Cyclic at *
  rwa [hdepends, h.refers_eq] at hn

/-- The paths of a rearranged system have the same sums. -/
theorem finite_and_total_eq (h : system.Rearranged system') (hn : system.Denotes n d) (b : String) :
    Finite (system'.Path b n) ∧ system.total f n b = system'.total f n b := by
  refine hn.induct (P := fun n => Finite (system'.Path b n) ∧ system.total f n b = system'.total f n b) ?_ ?_
  · intro n hb
    have hb' := (h.base_iff n).mp hb
    rw [total_base f hb, total_base f hb']
    exact ⟨finite_path_of_base hb', rfl⟩
  · intro n d hd hc ih
    have hc' : system'.definition n ≠ .base := fun hb => hc ((h.base_iff n).mpr hb)
    have hfin : ∀ q ∈ (system'.definition n).factors, Finite (system'.Path b q.1) :=
      fun q hq => (ih q ((h.perm n).mem_iff.mpr hq)).1
    refine ⟨finite_path_of_factors hc' hfin, ?_⟩
    rw [hd.total_eq f hc, total_eq_pathSum f hc' hfin]
    exact pathSum_congr f (h.perm n) fun q hq => (ih q hq).2

/-- **Rearranging definitions and powers changes no sum over paths.** -/
theorem pathSum_eq {powers powers' : List (String × Exponent)} (h : system.Rearranged system')
    (hp : powers.Perm powers') (hd : system.DenotesProduct powers d) (b : String) :
    system.pathSum f powers b = system'.pathSum f powers' b := by
  obtain ⟨den, hden, -⟩ := hd
  exact pathSum_congr f hp fun q hq => (h.finite_and_total_eq f (hden q hq) b).2

end Rearranged

end UnitSystem
end Dimensional
