import Dimensional.UnitSystem
import Mathlib.Data.Set.Defs
import Mathlib.Logic.Relation

/-!
# References between the names of a unit system

A name depends on the names that its definition refers to. The empty name is no unit, so a reference to it is a fault
of the definition and no dependency. Cycles and strongly connected components are those of the dependencies.

The main statements: a name on a cycle is not a base unit (`definition_ne_base_of_cyclic`), cycles stay inside their
component (`Cyclic.of_connected`), and a component is reached where any of its names is (`IsComponent.leadsInto_iff`).
-/

namespace Dimensional
namespace UnitSystem

open Relation (ReflTransGen TransGen)

def Refers (system : UnitSystem) (n r : String) : Prop :=
  r ∈ (system.definition n).references

/-- The definition of `n` refers to `r`, and `r` is not the empty name. -/
def DependsOn (system : UnitSystem) (n r : String) : Prop :=
  r ≠ "" ∧ system.Refers n r

/-- The names that a name leads to along dependencies, itself among them. -/
def Reaches (system : UnitSystem) : String → String → Prop :=
  ReflTransGen system.DependsOn

def Cyclic (system : UnitSystem) (n : String) : Prop :=
  TransGen system.DependsOn n n

def Connected (system : UnitSystem) (n m : String) : Prop :=
  system.Reaches n m ∧ system.Reaches m n

/-- A strongly connected component: all names that are connected with one of them. -/
def IsComponent (system : UnitSystem) (C : Set String) : Prop :=
  ∃ n, C = {m | system.Connected n m}

def LeadsInto (system : UnitSystem) (C : Set String) (n : String) : Prop :=
  ∃ m ∈ C, system.Reaches n m

/-- Nothing that a name leads to is on a cycle or refers to the empty name. -/
def Regular (system : UnitSystem) (n : String) : Prop :=
  ∀ m, system.Reaches n m → ¬ system.Cyclic m ∧ ¬ system.Refers m ""

variable {system : UnitSystem} {n m r u : String}

/-- A name refers to what one of the entries of the system says. -/
theorem refers_iff : system.Refers n r ↔ ∃ d, (n, d) ∈ system.entries ∧ r ∈ d.references := by
  rw [Refers, definition]
  cases hg : system.get? n with
  | none =>
    have hno : ∀ d, (n, d) ∉ system.entries := fun d hd => by
      rw [NameMap.get?_eq_some_iff.mpr hd] at hg
      cases hg
    simp [Definition.references, Definition.factors, hno]
  | some d =>
    have hd := NameMap.get?_eq_some_iff.mp hg
    constructor
    · intro hr
      exact ⟨d, hd, hr⟩
    · rintro ⟨d', hd', hr⟩
      rw [NameMap.get?_eq_some_iff.mpr hd'] at hg
      cases hg
      exact hr

theorem mem_entries_of_compound (h : system.definition n ≠ .base) : (n, system.definition n) ∈ system.entries := by
  rw [definition] at h ⊢
  cases hg : system.get? n with
  | none => exact absurd (by rw [hg]; rfl) h
  | some v => exact NameMap.get?_eq_some_iff.mp hg

/-! ### Base units -/

theorem not_refers_of_base (h : system.definition n = .base) : ¬ system.Refers n r := by
  simp [Refers, h, Definition.references, Definition.factors]

theorem eq_of_reaches_of_base (h : system.definition n = .base) (hr : system.Reaches n m) : m = n := by
  rcases hr.cases_head with rfl | ⟨r, hd, -⟩
  · rfl
  · exact absurd hd.2 (not_refers_of_base h)

theorem definition_ne_base_of_cyclic (h : system.Cyclic n) : system.definition n ≠ .base := by
  intro hb
  obtain ⟨r, hd, -⟩ := Relation.TransGen.head'_iff.mp h
  exact not_refers_of_base hb hd.2

/-! ### Cycles and components -/

/-- A name on a cycle depends on a name of its component. -/
theorem exists_dependsOn_connected (h : system.Cyclic n) : ∃ r, system.DependsOn n r ∧ system.Connected n r := by
  obtain ⟨r, hd, hr⟩ := Relation.TransGen.head'_iff.mp h
  exact ⟨r, hd, .single hd, hr⟩

theorem Connected.symm (h : system.Connected n m) : system.Connected m n :=
  ⟨h.2, h.1⟩

theorem Connected.trans (h : system.Connected n m) (h' : system.Connected m u) : system.Connected n u :=
  ⟨h.1.trans h'.1, h'.2.trans h.2⟩

theorem Cyclic.of_connected (h : system.Cyclic n) (hc : system.Connected n m) : system.Cyclic m :=
  (TransGen.trans_right hc.2 h).trans_left hc.1

theorem IsComponent.connected {C : Set String} (hC : system.IsComponent C) (hn : n ∈ C) (hm : m ∈ C) :
    system.Connected n m := by
  obtain ⟨k, rfl⟩ := hC
  exact hn.symm.trans hm

theorem IsComponent.mem {C : Set String} (hC : system.IsComponent C) (hn : n ∈ C) (h : system.Connected n m) :
    m ∈ C := by
  obtain ⟨k, rfl⟩ := hC
  exact hn.trans h

/-- Where one name of a component is reached, all are. -/
theorem IsComponent.leadsInto_iff {C : Set String} (hC : system.IsComponent C) (hm : m ∈ C) :
    system.LeadsInto C n ↔ system.Reaches n m := by
  constructor
  · rintro ⟨k, hk, hr⟩
    exact hr.trans (hC.connected hk hm).1
  · intro hr
    exact ⟨m, hm, hr⟩

/-! ### Regular names -/

theorem Regular.of_reaches (h : system.Regular n) (hr : system.Reaches n m) : system.Regular m :=
  fun _ hk => h _ (hr.trans hk)

/-- A rank that falls along all references falls along series of them. -/
theorem rank_lt_of_transGen {rank : String → Nat}
    (h : ∀ p ∈ system.entries, ∀ r ∈ p.2.references, rank r < rank p.1) (hr : TransGen system.Refers n m) :
    rank m < rank n := by
  have hstep : ∀ {a b}, system.Refers a b → rank b < rank a := by
    intro a b hab
    obtain ⟨d, hmem, hb⟩ := refers_iff.mp hab
    exact h _ hmem _ hb
  induction hr with
  | single hd => exact hstep hd
  | tail _ hd ih => exact Nat.lt_trans (hstep hd) ih

/-- Where a rank falls along all references, and none is to the empty name, all names are regular. -/
theorem regular_of_rank (rank : String → Nat)
    (h : ∀ p ∈ system.entries, ∀ r ∈ p.2.references, r ≠ "" ∧ rank r < rank p.1) (n : String) :
    system.Regular n := by
  intro m _
  refine ⟨fun hc => ?_, fun he => ?_⟩
  · have hlt := rank_lt_of_transGen (fun p hp r hr => (h p hp r hr).2) (TransGen.mono (fun _ _ hd => hd.2) _ _ hc)
    exact absurd hlt (Nat.lt_irrefl _)
  · obtain ⟨d, hmem, hr⟩ := refers_iff.mp he
    exact (h _ hmem _ hr).1 rfl

/-- Force and pressure over three base units that are not mentioned. -/
def mechanics : UnitSystem :=
  NameMap.ofList [("N", .product [("kg", 1), ("m", 1), ("s", -2)]), ("newton", .synonym "N"),
    ("Pa", .product [("newton", 1), ("m", -2)])]

theorem regular_mechanics (n : String) : mechanics.Regular n :=
  regular_of_rank (fun n => if n = "N" then 1 else if n = "newton" then 2 else if n = "Pa" then 3 else 0) (by decide) n

end UnitSystem

end Dimensional
