import Dimensional.Proofs.UnitSystem.Ordering

/-!
# The order of looking through a graph

The sources of a graph are put in order before they are taken up, and so are the nodes that are released together. That
is enough: two runs of peeling that look through the nodes, their dependencies and their dependents in different orders
have the same queue and the same counters all the time (`peel_congr`).

The main statement is `sort_eq_of_rearranged`: they end with the same order and the same blocked nodes.
-/

namespace Dimensional

/-- The same nodes and dependencies in another order. -/
structure DependencyGraph.Rearranged (g g' : DependencyGraph) : Prop where
  keys : (g.entries.map Prod.fst).Perm (g'.entries.map Prod.fst)
  dependencies : ∀ n, (g.dependencies n).Perm (g'.dependencies n)

namespace DependencyGraph

variable {g g' : DependencyGraph} {n : String}

theorem Rearranged.proper (h : g.Rearranged g') (hg : g.Proper) : g'.Proper := by
  have hkeys : (g'.entries.map Prod.fst).Nodup := h.keys.nodup_iff.mp hg.keys
  refine ⟨hkeys, fun p hp => ?_⟩
  have hfound : g'.dependencies p.1 = p.2 := dependencies_eq hkeys hp
  rw [← hfound, ← (h.dependencies p.1).nodup_iff]
  exact hg.lists.deps_nodup p.1

theorem Proper.mentions_iff (h : g.Proper) :
    g.Mentions n ↔ n ∈ g.entries.map Prod.fst ∨ ∃ m, n ∈ g.dependencies m := by
  constructor
  · rintro ⟨p, hp, rfl | hn⟩
    · exact .inl (List.mem_map_of_mem hp)
    · exact .inr ⟨p.1, h.mem_dependencies.mpr ⟨p.2, hp, hn⟩⟩
  · rintro (hn | ⟨m, hn⟩)
    · obtain ⟨p, hp, rfl⟩ := List.mem_map.mp hn
      exact ⟨p, hp, .inl rfl⟩
    · obtain ⟨ds, hds, hn⟩ := mem_dependencies_imp hn
      exact ⟨_, hds, .inr hn⟩

theorem Rearranged.nodes (h : g.Rearranged g') (hg : g.Proper) : g.nodes.Perm g'.nodes := by
  have hg' := h.proper hg
  refine (List.perm_ext_iff_of_nodup hg.lists.nodes_nodup hg'.lists.nodes_nodup).mpr fun n => ?_
  change n ∈ g.nodes ↔ n ∈ g'.nodes
  rw [mem_nodes, mem_nodes, hg.mentions_iff, hg'.mentions_iff, h.keys.mem_iff]
  simp only [(h.dependencies _).mem_iff]

end DependencyGraph

namespace Enumeration

variable {e e' : Enumeration} {deps deps' : String → List String} {ns ms : List String} {counts : NameMap Nat}

/-! ### One batch -/

theorem sortNames_congr (h : ns.Perm ms) : sortNames ns = sortNames ms := by
  have htrans : ∀ a b c : String, decide (a ≤ b) = true → decide (b ≤ c) = true → decide (a ≤ c) = true := by
    intro a b c hab hbc
    rw [decide_eq_true_eq] at *
    exact String.le_trans hab hbc
  have htotal : ∀ a b : String, (decide (a ≤ b) || decide (b ≤ a)) = true := by
    intro a b
    rw [Bool.or_eq_true, decide_eq_true_eq, decide_eq_true_eq]
    exact String.le_total a b
  have hperm : (sortNames ns).Perm (sortNames ms) :=
    (List.mergeSort_perm ns _).trans (h.trans (List.mergeSort_perm ms _).symm)
  refine List.Perm.eq_of_pairwise ?_ (List.pairwise_mergeSort htrans htotal ns)
    (List.pairwise_mergeSort htrans htotal ms) hperm
  intro a b _ _ hab hba
  exact String.le_antisymm (of_decide_eq_true hab) (of_decide_eq_true hba)

/-- The counters after a batch do not depend on the order within it. -/
theorem counts_release_congr (h : ns.Perm ms) (hnd : ns.Nodup) : (release counts ns).2 = (release counts ms).2 := by
  refine NameMap.ext_get? fun n => ?_
  rw [get?_release hnd, get?_release (h.nodup_iff.mp hnd)]
  simp only [h.mem_iff]

/-- Nor do the nodes that are released, once they are put in order. -/
theorem sortNames_release_congr (h : ns.Perm ms) (hnd : ns.Nodup) :
    sortNames (release counts ns).1 = sortNames (release counts ms).1 := by
  rw [release_eq_filter hnd, release_eq_filter (h.nodup_iff.mp hnd)]
  exact sortNames_congr (h.filter _)

/-! ### Two runs -/

/-- **Two runs of peeling go on in lock step.** -/
theorem peel_congr (h : ∀ n, (e.dependents n).Perm (e'.dependents n)) (hnd : ∀ n, (e.dependents n).Nodup)
    (queue : List String) (counts : NameMap Nat) : e.peel queue counts = e'.peel queue counts := by
  fun_induction e.peel queue counts with
  | case1 counts => rw [peel]
  | case2 counts n queue released rest =>
    rename_i ih
    have hcounts : released.2 = (release counts (e'.dependents n)).2 := counts_release_congr (h n) (hnd n)
    have hqueue : sortNames released.1 = sortNames (release counts (e'.dependents n)).1 :=
      sortNames_release_congr (h n) (hnd n)
    rw [peel, ← hcounts, ← hqueue, ← ih]

theorem Lists.dependents_perm (h : e.Lists deps) (h' : e'.Lists deps') (hdeps : ∀ n, (deps n).Perm (deps' n))
    (n : String) : (e.dependents n).Perm (e'.dependents n) := by
  refine (List.perm_ext_iff_of_nodup (h.dependents_nodup n) (h'.dependents_nodup n)).mpr fun m => ?_
  rw [h.mem_dependents, h'.mem_dependents, (hdeps m).mem_iff]

theorem Lists.dependencyCount_eq (h : e.Lists deps) (h' : e'.Lists deps') (hdeps : ∀ n, (deps n).Perm (deps' n)) :
    e.dependencyCount = e'.dependencyCount := by
  funext n
  rw [h.count, h'.count, (hdeps n).length_eq]

/-- Both runs begin with the same queue and the same counters. -/
theorem Lists.sort_congr (h : e.Lists deps) (h' : e'.Lists deps') (hnodes : e.nodes.Perm e'.nodes)
    (hdeps : ∀ n, (deps n).Perm (deps' n)) : e.sort = e'.sort := by
  have hcount := h.dependencyCount_eq h' hdeps
  have hcounts : e.initialCounts = e'.initialCounts := by
    refine NameMap.ext_get? fun n => ?_
    rw [initialCounts, initialCounts, NameMap.get?_ofList_map, NameMap.get?_ofList_map, hcount]
    simp only [hnodes.mem_iff]
  have hsources : sortNames e.sources = sortNames e'.sources := by
    refine sortNames_congr ?_
    rw [sources, sources, hcount]
    exact hnodes.filter _
  rw [sort, sort, hcounts, hsources, peel_congr (h.dependents_perm h' hdeps) h.dependents_nodup]

end Enumeration

namespace DependencyGraph

variable {g g' : DependencyGraph} {e e' : Enumeration}

/-- **The order of looking through a graph does not matter.** Of whatever arrangement of a graph, and in whatever order
the nodes and the dependents of each are gone through: the order and the blocked nodes are the same. -/
theorem sort_eq_of_rearranged (hg : g.Proper) (h : g.Rearranged g') (he : e.Enumerates g) (he' : e'.Enumerates g') :
    e.sort = e'.sort := by
  have hnodes : e.nodes.Perm e'.nodes := he.nodes.trans ((h.nodes hg).trans he'.nodes.symm)
  exact (he.lists hg).sort_congr (he'.lists (h.proper hg)) hnodes h.dependencies

def reverse (g : DependencyGraph) : DependencyGraph :=
  ⟨g.entries.reverse.map fun p => (p.1, p.2.reverse)⟩

theorem Proper.reverse (h : g.Proper) : g.reverse.Proper where
  keys := by
    have hkeys : g.reverse.entries.map Prod.fst = (g.entries.map Prod.fst).reverse := by
      simp [DependencyGraph.reverse, Function.comp_def]
    rw [hkeys, List.nodup_reverse]
    exact h.keys
  sets p hp := by
    obtain ⟨q, hq, rfl⟩ := List.mem_map.mp hp
    exact List.nodup_reverse.mpr (h.sets q (List.mem_reverse.mp hq))

theorem rearranged_reverse (h : g.Proper) : g.Rearranged g.reverse where
  keys := by
    simp [reverse, Function.comp_def, (List.reverse_perm (g.entries.map Prod.fst)).symm]
  dependencies n := by
    refine (List.perm_ext_iff_of_nodup (h.lists.deps_nodup n) (h.reverse.lists.deps_nodup n)).mpr fun d => ?_
    rw [h.mem_dependencies, h.reverse.mem_dependencies]
    simp [reverse]

theorem sort_eq_of_rearranged_laps :
    laps.Proper ∧ laps.Rearranged laps.reverse ∧ laps.enumeration.Enumerates laps ∧
      laps.reverse.enumeration.reverse.Enumerates laps.reverse ∧
      laps.enumeration.sort = laps.reverse.enumeration.reverse.sort :=
  ⟨proper_laps, rearranged_reverse proper_laps, enumerates_enumeration _, enumerates_reverse _,
    sort_eq_of_rearranged proper_laps (rearranged_reverse proper_laps) (enumerates_enumeration _)
      (enumerates_reverse _)⟩

end DependencyGraph
end Dimensional
