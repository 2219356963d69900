import Dimensional.Proofs.UnitSystem.Peeling
import Dimensional.Proofs.UnitSystem.Reference
import Dimensional.UnitSystem.Validation

/-!
# Blocked units

The graph of a unit system is enumerated as peeling wants it (`DependencyGraph.Proper.lists`), so the cyclic units of a
validation are the names that lead to a cycle of references (`UnitSystem.mem_cyclicUnits_iff`). Here references to the
empty name count as well: the graph knows no difference between names.
-/

namespace Dimensional

open Relation (ReflTransGen TransGen)

theorem nodup_eraseDups (names : List String) : names.eraseDups.Nodup := by
  induction hl : names.length using Nat.strongRecOn generalizing names with
  | ind k ih =>
    cases names with
    | nil => simp
    | cons n names =>
      rw [List.eraseDups_cons, List.nodup_cons]
      refine ⟨by simp, ih _ ?_ _ rfl⟩
      rw [← hl, List.length_cons]
      exact Nat.lt_succ_of_le (List.length_filter_le _ _)

namespace DependencyGraph

/-- A graph with one entry for each node, which lists each dependency once. -/
structure Proper (g : DependencyGraph) : Prop where
  keys : (g.entries.map Prod.fst).Nodup
  sets : ∀ p ∈ g.entries, p.2.Nodup

variable {g : DependencyGraph} {n d : String}

/-- Where every node has one entry, a node has the dependencies of its entry. -/
theorem dependencies_eq (hkeys : (g.entries.map Prod.fst).Nodup) {ds : List String} (hmem : (n, ds) ∈ g.entries) :
    g.dependencies n = ds := by
  unfold dependencies
  cases hf : g.entries.find? fun p => p.1 == n with
  | none => exact absurd (List.find?_eq_none.mp hf _ hmem) (by simp)
  | some p =>
    have hp : p ∈ g.entries := List.mem_of_find?_eq_some hf
    have hname : p.1 = n := by simpa using List.find?_some hf
    have heq : p = (n, ds) := List.inj_on_of_nodup_map hkeys hp hmem hname
    rw [heq]

theorem mem_dependencies_imp (hd : d ∈ g.dependencies n) : ∃ ds, (n, ds) ∈ g.entries ∧ d ∈ ds := by
  unfold dependencies at hd
  split at hd
  · next p hf =>
    have hname : p.1 = n := by simpa using List.find?_some hf
    exact ⟨p.2, hname ▸ List.mem_of_find?_eq_some hf, hd⟩
  · cases hd

theorem Proper.mem_dependencies (h : g.Proper) : d ∈ g.dependencies n ↔ ∃ ds, (n, ds) ∈ g.entries ∧ d ∈ ds := by
  constructor
  · exact mem_dependencies_imp
  · rintro ⟨ds, hmem, hd⟩
    rwa [dependencies_eq h.keys hmem]

/-- **The enumeration of a graph lists it.** -/
theorem Proper.lists (h : g.Proper) : g.enumeration.Lists g.dependencies where
  nodes_nodup := nodup_eraseDups _
  deps_nodup n := by
    cases hf : g.entries.find? fun p => p.1 == n with
    | none => simp [dependencies, hf]
    | some p =>
      simp only [dependencies, hf]
      exact h.sets p (List.mem_of_find?_eq_some hf)
  count n := rfl
  dependents_nodup n := (List.filter_sublist.map Prod.fst).nodup h.keys
  mem_dependents n m := by
    rw [h.mem_dependencies]
    simp [enumeration, dependents]
  mem_nodes n d hd := by
    obtain ⟨ds, hmem, hd⟩ := mem_dependencies_imp hd
    simp only [enumeration, nodes, List.mem_eraseDups, List.mem_flatMap]
    exact ⟨⟨_, hmem, List.mem_cons_self⟩, _, hmem, List.mem_cons_of_mem _ hd⟩

/-! ### The graph of a unit system -/

theorem proper_ofSystem (system : UnitSystem) : (ofSystem system).Proper where
  keys := by
    have hnames : (ofSystem system).entries.map Prod.fst = system.names := by
      simp [ofSystem, ofList, NameMap.names, Function.comp_def]
    rw [hnames, NameMap.names, List.nodup_iff_pairwise_ne, List.pairwise_map]
    refine system.sorted.imp ?_
    intro p q hlt heq
    rw [heq] at hlt
    exact String.lt_irrefl _ hlt
  sets p hp := by
    simp only [ofSystem, ofList, List.map_map, List.mem_map] at hp
    obtain ⟨q, -, rfl⟩ := hp
    exact nodup_eraseDups _

theorem mem_dependencies_ofSystem {system : UnitSystem} :
    d ∈ (ofSystem system).dependencies n ↔ system.Refers n d := by
  rw [(proper_ofSystem system).mem_dependencies, UnitSystem.refers_iff]
  simp [ofSystem, ofList]

end DependencyGraph

namespace UnitSystem

/-- **The cyclic units of a validation are the names that lead to a cycle of references.** -/
theorem mem_cyclicUnits_iff {system : UnitSystem} {n : String} :
    n ∈ system.validate.cyclicUnits ↔ ∃ m, ReflTransGen system.Refers n m ∧ TransGen system.Refers m m := by
  have hlists := (DependencyGraph.proper_ofSystem system).lists
  have hrel : (fun a b => b ∈ (DependencyGraph.ofSystem system).dependencies a) = system.Refers := by
    funext a b
    exact propext DependencyGraph.mem_dependencies_ofSystem
  rw [← hrel]
  exact Enumeration.mem_blocked_iff_exists_cycle hlists

/-- A unit system is valid exactly if no name comes back to itself along references. -/
theorem isValid_iff {system : UnitSystem} :
    system.validate.isValid = true ↔ ∀ n, ¬ TransGen system.Refers n n := by
  rw [Validation.isValid, List.isEmpty_iff, List.eq_nil_iff_forall_not_mem]
  constructor
  · intro h n hn
    exact h n (mem_cyclicUnits_iff.mpr ⟨n, .refl, hn⟩)
  · intro h n hn
    obtain ⟨m, -, hm⟩ := mem_cyclicUnits_iff.mp hn
    exact h m hm

/-- A unit system in which a rank falls along all references is valid. -/
theorem isValid_of_rank {system : UnitSystem} (rank : String → Nat)
    (h : ∀ p ∈ system.entries, ∀ r ∈ p.2.references, rank r < rank p.1) : system.validate.isValid = true :=
  isValid_iff.mpr fun _ hn => absurd (rank_lt_of_transGen h hn) (Nat.lt_irrefl _)

end UnitSystem
end Dimensional
