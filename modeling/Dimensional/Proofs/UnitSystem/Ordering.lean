import Dimensional.Proofs.NameMap.Merging
import Dimensional.Proofs.UnitSystem.Blocked

/-!
# Dependency orders

What a dependency order has to be (`DependencyOrder.Sorts`), said of the graph alone: every name of the graph stands in
the order or is blocked, once; an ordered name comes after its dependencies; the blocked names are those that lead to a
cycle. Peeling looks through the nodes and through the dependents of a node in some order (`Enumerates`), and counts
counters down on the way (`sortCountdowns`).

The main statement is `sorts_and_orders`: in whatever order it looks through a graph, peeling gives a dependency order
and counts no counter down below 0, and a validation orders the units that are defined.
-/

namespace Dimensional

open Relation (ReflTransGen TransGen)

/-! ### What is asked of an order -/

namespace DependencyGraph

def DependsOn (g : DependencyGraph) (n d : String) : Prop :=
  ∃ ds, (n, ds) ∈ g.entries ∧ d ∈ ds

def Mentions (g : DependencyGraph) (n : String) : Prop :=
  ∃ p ∈ g.entries, n = p.1 ∨ n ∈ p.2

def LeadsToCycle (g : DependencyGraph) (n : String) : Prop :=
  ∃ m, ReflTransGen g.DependsOn n m ∧ TransGen g.DependsOn m m

end DependencyGraph

/-- The order and the blocked names are those of the graph. -/
structure DependencyOrder.Sorts (o : DependencyOrder) (g : DependencyGraph) : Prop where
  nodup : (o.order ++ o.blocked).Nodup
  mem_iff : ∀ n, n ∈ o.order ++ o.blocked ↔ g.Mentions n
  idxOf_lt : ∀ n ∈ o.order, ∀ d, g.DependsOn n d → o.order.idxOf d < o.order.idxOf n
  blocked_iff : ∀ n, n ∈ o.blocked ↔ g.LeadsToCycle n

/-- The enumeration goes through the nodes of the graph, and through the dependents of each, in some order. -/
structure Enumeration.Enumerates (e : Enumeration) (g : DependencyGraph) : Prop where
  nodes : e.nodes.Perm g.nodes
  count : ∀ n, e.dependencyCount n = (g.dependencies n).length
  dependents : ∀ n, (e.dependents n).Perm (g.dependents n)

namespace DependencyGraph

variable {g : DependencyGraph} {n d : String}

theorem mem_nodes : n ∈ g.nodes ↔ g.Mentions n := by
  simp [nodes, Mentions]

theorem enumerates_enumeration (g : DependencyGraph) : g.enumeration.Enumerates g :=
  ⟨.refl _, fun _ => rfl, fun _ => .refl _⟩

theorem Proper.dependsOn_eq (h : g.Proper) : (fun n d => d ∈ g.dependencies n) = g.DependsOn := by
  funext n d
  exact propext h.mem_dependencies

end DependencyGraph

namespace Enumeration

variable {g : DependencyGraph} {e : Enumeration} {deps : String → List String} {taken queue ns : List String}
  {counts : NameMap Nat} {n m : String}

theorem Enumerates.lists (h : e.Enumerates g) (hg : g.Proper) : e.Lists g.dependencies where
  nodes_nodup := h.nodes.nodup_iff.mpr hg.lists.nodes_nodup
  deps_nodup := hg.lists.deps_nodup
  count := h.count
  dependents_nodup n := (h.dependents n).nodup_iff.mpr (hg.lists.dependents_nodup n)
  mem_dependents n m := (h.dependents n).mem_iff.trans (hg.lists.mem_dependents n m)
  mem_nodes n d hd := (hg.lists.mem_nodes n d hd).imp h.nodes.mem_iff.mpr h.nodes.mem_iff.mpr

/-! ### The order that is found -/

theorem nodup_blocked (e : Enumeration) : e.sort.blocked.Nodup := by
  have hsub : List.Sublist e.sort.blocked (e.peel (sortNames e.sources) e.initialCounts).2.names :=
    List.filter_sublist.map Prod.fst
  exact hsub.nodup (NameMap.nodup_names _)

theorem nodup_order_append_blocked (h : e.Lists deps) : (e.sort.order ++ e.sort.blocked).Nodup := by
  rw [List.nodup_append]
  refine ⟨nodup_order h, nodup_blocked e, ?_⟩
  rintro a ha b hb rfl
  exact ((mem_blocked_iff_not_mem_order h).mp hb).2 ha

theorem mem_order_append_blocked (h : e.Lists deps) : n ∈ e.sort.order ++ e.sort.blocked ↔ n ∈ e.nodes := by
  rw [List.mem_append, mem_blocked_iff_not_mem_order h]
  constructor
  · rintro (hn | hn)
    · exact ((mem_order_iff h).mp hn).1
    · exact hn.1
  · intro hn
    by_cases ho : n ∈ e.sort.order
    · exact .inl ho
    · exact .inr ⟨hn, ho⟩

/-- **Peeling finds a dependency order**, whatever order it looks through the graph in. -/
theorem Enumerates.sorts (h : e.Enumerates g) (hg : g.Proper) : e.sort.Sorts g := by
  have hl := h.lists hg
  refine ⟨nodup_order_append_blocked hl, fun n => ?_, fun n hn d hd => ?_, fun n => ?_⟩
  · rw [mem_order_append_blocked hl, h.nodes.mem_iff, DependencyGraph.mem_nodes]
  · exact idxOf_order_lt hl hn (hg.mem_dependencies.mpr hd)
  · rw [mem_blocked_iff_exists_cycle hl, hg.dependsOn_eq]
    rfl

/-! ### Counting down -/

/-- The counters that are counted down when some nodes are released, with what they stand at before. -/
def releaseCountdowns (counts : NameMap Nat) : List String → List (String × Nat)
  | [] => []
  | n :: ns => ((counts.get? n).map fun k => (n, k)).toList ++ releaseCountdowns (countDown counts n) ns

/-- The counters that are counted down while the nodes of a queue are taken up. -/
def peelCountdowns (e : Enumeration) (queue : List String) (counts : NameMap Nat) : List (String × Nat) :=
  match queue with
  | [] => []
  | n :: queue =>
    let released := release counts (e.dependents n)
    releaseCountdowns counts (e.dependents n) ++ peelCountdowns e (queue ++ sortNames released.1) released.2
termination_by total counts + queue.length
decreasing_by
  have := total_release_le counts (e.dependents n)
  simp only [sortNames, List.length_append, List.length_mergeSort, List.length_cons]
  omega

/-- All counters that are counted down, one after the other, with what they stand at before. -/
def sortCountdowns (e : Enumeration) : List (String × Nat) :=
  e.peelCountdowns (sortNames e.sources) e.initialCounts

theorem releaseCountdowns_eq (hnd : ns.Nodup) :
    releaseCountdowns counts ns = ns.filterMap fun n => (counts.get? n).map fun k => (n, k) := by
  induction ns generalizing counts with
  | nil => rfl
  | cons n ns ih =>
    obtain ⟨hn, hnd⟩ := List.nodup_cons.mp hnd
    have hrest : (ns.filterMap fun m => ((countDown counts n).get? m).map fun k => (m, k)) =
        ns.filterMap fun m => (counts.get? m).map fun k => (m, k) := by
      refine List.filterMap_congr fun m hm => ?_
      rw [get?_countDown, if_neg]
      rintro rfl
      exact hn hm
    rw [releaseCountdowns, ih hnd, hrest, List.filterMap_cons]
    cases counts.get? n <;> rfl

/-- The counters of the dependents stand at the numbers of dependencies that they wait for. -/
theorem Peeling.releaseCountdowns_eq (h : Peeling e deps taken (n :: queue) counts) (hl : e.Lists deps) :
    releaseCountdowns counts (e.dependents n) =
      (e.dependents n).map fun m => (m, (waiting deps taken m).length) := by
  rw [Enumeration.releaseCountdowns_eq (hl.dependents_nodup n), ← List.filterMap_eq_map]
  refine List.filterMap_congr fun m hm => ?_
  have hnode : m ∈ e.nodes := (hl.mem_nodes m n ((hl.mem_dependents n m).mp hm)).1
  rw [h.count, if_pos hnode]
  rfl

/-- **No counter is counted down below 0.** -/
theorem Peeling.countdowns_pos (h : Peeling e deps taken queue counts) (hl : e.Lists deps) :
    ∀ c ∈ e.peelCountdowns queue counts, 0 < c.2 := by
  fun_induction peelCountdowns e queue counts generalizing taken with
  | case1 counts => simp
  | case2 counts n queue released =>
    rename_i ih
    intro c hc
    rcases List.mem_append.mp hc with hc | hc
    · rw [h.releaseCountdowns_eq hl] at hc
      obtain ⟨m, hm, rfl⟩ := List.mem_map.mp hc
      -- the dependent waits for the node that is being taken up, at least
      exact List.length_pos_of_mem (mem_waiting.mpr ⟨(hl.mem_dependents n m).mp hm, h.not_mem_taken⟩)
    · exact ih (h.step hl) c hc

/-- A counter is counted down once for each dependency that is taken up. -/
theorem Peeling.length_countdowns (h : Peeling e deps taken queue counts) (hl : e.Lists deps) (m : String) :
    ((e.peelCountdowns queue counts).filter fun c => c.1 = m).length +
      (waiting deps (taken ++ (e.peel queue counts).1) m).length = (waiting deps taken m).length := by
  fun_induction peelCountdowns e queue counts generalizing taken with
  | case1 counts => simp [Enumeration.peel]
  | case2 counts n queue released =>
    rename_i ih
    have hrest := ih (h.step hl)
    have hstep : (waiting deps (taken ++ [n]) m).length +
        ((releaseCountdowns counts (e.dependents n)).filter fun c => c.1 = m).length =
          (waiting deps taken m).length := by
      have hlength : (((e.dependents n).map fun k => (k, (waiting deps taken k).length)).filter
          fun c => c.1 = m).length = (e.dependents n).count m := by
        rw [List.filter_map, List.length_map, ← List.countP_eq_length_filter, List.count]
        rfl
      rw [h.releaseCountdowns_eq hl, hlength, length_waiting_append_singleton (hl.deps_nodup m) h.not_mem_taken,
        List.Nodup.count (hl.dependents_nodup n)]
      by_cases hm : n ∈ deps m
      · have hpos := List.length_pos_of_mem (mem_waiting.mpr ⟨hm, h.not_mem_taken⟩)
        simp only [hm, hl.mem_dependents, if_true]
        omega
      · simp [hm, hl.mem_dependents]
    rw [Enumeration.peel, List.filter_append, List.length_append]
    simp only [released, List.append_assoc, List.singleton_append] at hrest ⊢
    omega

theorem sortCountdowns_pos (hl : e.Lists deps) : ∀ c ∈ e.sortCountdowns, 0 < c.2 :=
  (Peeling.initial hl).countdowns_pos hl

theorem length_sortCountdowns (hl : e.Lists deps) (n : String) :
    (e.sortCountdowns.filter fun c => c.1 = n).length = ((deps n).filter fun d => d ∈ e.sort.order).length := by
  have hrun := (Peeling.initial hl).length_countdowns hl n
  have hsplit := List.length_eq_length_filter_add (l := deps n) fun d => decide (d ∈ e.sort.order)
  have hleft : waiting deps e.sort.order n = (deps n).filter fun d => !decide (d ∈ e.sort.order) := by
    simp [waiting]
  rw [← hleft] at hsplit
  have hnone : waiting deps [] n = deps n := by simp [waiting]
  rw [hnone, List.nil_append] at hrun
  change (e.sortCountdowns.filter fun c => c.1 = n).length + (waiting deps e.sort.order n).length = _ at hrun
  omega

end Enumeration

/-! ### The order of a unit system -/

namespace UnitSystem

variable {system : UnitSystem} {n r : String}

/-- Names that are left keep their places relative to each other. -/
theorem idxOf_filter_lt {p : String → Bool} {names : List String} (hr : p r = true)
    (h : names.idxOf r < names.idxOf n) : (names.filter p).idxOf r < (names.filter p).idxOf n := by
  induction names with
  | nil => simp at h
  | cons m names ih =>
    by_cases hmn : m = n
    · subst hmn
      simp at h
    by_cases hmr : m = r
    · subst hmr
      rw [List.filter_cons_of_pos hr, List.idxOf_cons_self, List.idxOf_cons_ne _ hmn]
      omega
    rw [List.idxOf_cons_ne _ hmr, List.idxOf_cons_ne _ hmn] at h
    have hrest := ih (by omega)
    by_cases hm : p m = true
    · rw [List.filter_cons_of_pos hm, List.idxOf_cons_ne _ hmr, List.idxOf_cons_ne _ hmn]
      omega
    · rwa [List.filter_cons_of_neg hm]

theorem sorts_ofSystem (system : UnitSystem) :
    (DependencyGraph.ofSystem system).sort.Sorts (DependencyGraph.ofSystem system) :=
  (DependencyGraph.enumerates_enumeration _).sorts (DependencyGraph.proper_ofSystem system)

theorem mem_validate_order : n ∈ system.validate.order ↔
    n ∈ (DependencyGraph.ofSystem system).sort.order ∧ n ∈ system.names := by
  rw [NameMap.mem_names]
  exact List.mem_filter

/-- A unit that leads to a cycle is defined, for it refers to something. -/
theorem mem_names_of_mem_cyclicUnits (hn : n ∈ system.validate.cyclicUnits) : n ∈ system.names := by
  obtain ⟨m, hr, hc⟩ := mem_cyclicUnits_iff.mp hn
  obtain ⟨k, hk⟩ : ∃ k, system.Refers n k := by
    rcases hr.cases_head with rfl | ⟨k, hk, -⟩
    · obtain ⟨k, hk, -⟩ := TransGen.head'_iff.mp hc
      exact ⟨k, hk⟩
    · exact ⟨k, hk⟩
  obtain ⟨d, hd, -⟩ := refers_iff.mp hk
  exact List.mem_map_of_mem hd

theorem mentions_of_mem_names (hn : n ∈ system.names) : (DependencyGraph.ofSystem system).Mentions n := by
  obtain ⟨p, hp, rfl⟩ := List.mem_map.mp hn
  refine ⟨(p.1, p.2.references.eraseDups), ?_, .inl rfl⟩
  simp only [DependencyGraph.ofSystem, DependencyGraph.ofList, List.map_map, List.mem_map]
  exact ⟨p, hp, rfl⟩

/-- **The defined units are ordered or cyclic.** -/
theorem perm_names (system : UnitSystem) :
    (system.validate.order ++ system.validate.cyclicUnits).Perm system.names := by
  have h := sorts_ofSystem system
  have hsub : List.Sublist (system.validate.order ++ system.validate.cyclicUnits)
      ((DependencyGraph.ofSystem system).sort.order ++ (DependencyGraph.ofSystem system).sort.blocked) :=
    List.filter_sublist.append (List.Sublist.refl _)
  refine (List.perm_ext_iff_of_nodup (hsub.nodup h.nodup) (NameMap.nodup_names system)).mpr fun n => ?_
  rw [List.mem_append, mem_validate_order]
  constructor
  · rintro (hn | hn)
    · exact hn.2
    · exact mem_names_of_mem_cyclicUnits hn
  · intro hn
    rcases List.mem_append.mp ((h.mem_iff n).mpr (mentions_of_mem_names hn)) with ho | hb
    · exact .inl ⟨ho, hn⟩
    · exact .inr hb

/-- **A unit comes after the defined units that it refers to.** -/
theorem idxOf_validate_order_lt (hn : n ∈ system.validate.order) (hr : system.Refers n r)
    (hdef : system.contains r = true) : system.validate.order.idxOf r < system.validate.order.idxOf n := by
  have hdep : (DependencyGraph.ofSystem system).DependsOn n r :=
    (DependencyGraph.proper_ofSystem system).mem_dependencies.mp (DependencyGraph.mem_dependencies_ofSystem.mpr hr)
  exact idxOf_filter_lt hdef ((sorts_ofSystem system).idxOf_lt n (mem_validate_order.mp hn).1 r hdep)

end UnitSystem

/-! ### Every graph and every unit system -/

/-- **Dependency orders are right.** However the nodes of a graph and the dependents of each are gone through, the
graph is sorted, and every counter is counted down from above 0, once for each dependency that has a place in the order.
Units that are defined are ordered or cyclic, and come after the defined units that they refer to. -/
theorem sorts_and_orders :
    (∀ (g : DependencyGraph) (e : Enumeration), g.Proper → e.Enumerates g →
      e.sort.Sorts g ∧ (∀ c ∈ e.sortCountdowns, 0 < c.2) ∧
        ∀ n, (e.sortCountdowns.filter fun c => c.1 = n).length =
          ((g.dependencies n).filter fun d => d ∈ e.sort.order).length) ∧
    ∀ system : UnitSystem,
      (system.validate.order ++ system.validate.cyclicUnits).Perm system.names ∧
        ∀ n ∈ system.validate.order, ∀ r, system.Refers n r → system.contains r = true →
          system.validate.order.idxOf r < system.validate.order.idxOf n := by
  refine ⟨fun g e hg he => ⟨he.sorts hg, ?_, ?_⟩, fun system => ⟨system.perm_names, fun n hn r hr hdef => ?_⟩⟩
  · exact Enumeration.sortCountdowns_pos (he.lists hg)
  · exact Enumeration.length_sortCountdowns (he.lists hg)
  · exact UnitSystem.idxOf_validate_order_lt hn hr hdef

/-- Two names refer to each other and two more lead to them; the name that two others share has no entry. -/
def laps : DependencyGraph :=
  .ofList [("lap", ["turn", "m"]), ("turn", ["lap"]), ("ring", ["turn", "ring"]), ("km", ["m"])]

theorem proper_laps : laps.Proper := ⟨by decide, by decide⟩

def Enumeration.reverse (e : Enumeration) : Enumeration where
  nodes := e.nodes.reverse
  dependencyCount := e.dependencyCount
  dependents n := (e.dependents n).reverse

theorem enumerates_reverse (g : DependencyGraph) : g.enumeration.reverse.Enumerates g :=
  ⟨List.reverse_perm _, fun _ => rfl, fun _ => List.reverse_perm _⟩

theorem sorts_and_orders_laps :
    laps.Proper ∧ laps.enumeration.reverse.Enumerates laps ∧
      laps.enumeration.reverse.sort = ⟨["m", "km"], ["lap", "ring", "turn"]⟩ ∧
      laps.enumeration.reverse.sort.Sorts laps ∧ ∀ c ∈ laps.enumeration.reverse.sortCountdowns, 0 < c.2 := by
  obtain ⟨hsorts, hpos, -⟩ := sorts_and_orders.1 laps laps.enumeration.reverse proper_laps (enumerates_reverse laps)
  exact ⟨proper_laps, enumerates_reverse laps, by decide +kernel, hsorts, hpos⟩

end Dimensional
