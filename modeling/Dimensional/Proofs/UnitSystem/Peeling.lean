import Dimensional.UnitSystem.Dependency
import Mathlib.Data.Fintype.Pigeonhole
import Mathlib.Data.List.Nodup
import Mathlib.Logic.Relation

/-!
# Peeling a graph

`Enumeration.peel` takes up nodes as their counters run out. Its invariant (`Peeling`): the counter of a node is the
number of its dependencies that are not taken up, and the nodes in the queue are those whose counter ran out meanwhile.

The main statements: every node is either ordered or blocked (`mem_blocked_iff_not_mem_order`), an ordered node comes
after its dependencies (`idxOf_order_lt`), and a node is blocked exactly if it leads to a cycle
(`mem_blocked_iff_exists_cycle`).
-/

namespace Dimensional

open Relation (ReflTransGen TransGen)

namespace NameMap

variable {α : Type}

/-- A map made of a function on some names. -/
theorem get?_ofList_map (f : String → α) (names : List String) (n : String) :
    (ofList (names.map fun n => (n, f n))).get? n = if n ∈ names then some (f n) else none := by
  induction names using List.reverseRecOn with
  | nil => rfl
  | append_singleton names m ih =>
    have hstep : ofList ((names ++ [m]).map fun n => (n, f n)) =
        (ofList (names.map fun n => (n, f n))).insert m (f m) := by
      simp [ofList]
    rw [hstep, get?_insert, ih]
    by_cases hn : n = m <;> simp [hn]

end NameMap

/-! ### Walks among finitely many names -/

/-- Where a relation goes on from every name of a list to a name of the list, it comes to a cycle. -/
theorem exists_cycle_of_forall_exists {R : String → String → Prop} {names : List String}
    (h : ∀ n ∈ names, ∃ m ∈ names, R n m) {n : String} (hn : n ∈ names) :
    ∃ m, ReflTransGen R n m ∧ TransGen R m m := by
  -- the walk that takes one of the ways on, over and over again
  choose! next hmem hR using h
  have hwalk : ∀ k, next^[k] n ∈ names := by
    intro k
    induction k with
    | zero => exact hn
    | succ k ih => rw [Function.iterate_succ_apply']; exact hmem _ ih
  have hstep : ∀ i k, ReflTransGen R (next^[i] n) (next^[i + k] n) := by
    intro i k
    induction k with
    | zero => exact .refl
    | succ k ih =>
      rw [← Nat.add_assoc, Function.iterate_succ_apply']
      exact ih.tail (hR _ (hwalk (i + k)))
  obtain ⟨i, j, hij, hsame⟩ :=
    Finite.exists_ne_map_eq_of_infinite fun k => (⟨next^[k] n, hwalk k⟩ : {m // m ∈ names})
  wlog hlt : i < j generalizing i j
  · exact this j i hij.symm hsame.symm (by omega)
  have heq : next^[i] n = next^[j] n := congrArg Subtype.val hsame
  refine ⟨next^[i] n, by simpa using hstep 0 i, ?_⟩
  refine TransGen.head'_iff.mpr ⟨_, hR _ (hwalk i), ?_⟩
  obtain ⟨k, rfl⟩ := Nat.exists_eq_add_of_lt hlt
  have hlast := hstep (i + 1) k
  rw [Function.iterate_succ_apply'] at hlast
  have e : i + 1 + k = i + k + 1 := by omega
  rw [e, ← heq] at hlast
  exact hlast

namespace Enumeration

/-! ### Counters -/

/-- One dependency less for a node; a counter of 0 stays. -/
def countDown (counts : NameMap Nat) (n : String) : NameMap Nat :=
  match counts.get? n with
  | some (k + 1) => counts.insert n k
  | _ => counts

theorem get?_countDown (counts : NameMap Nat) (n m : String) :
    (countDown counts n).get? m = if m = n then (counts.get? m).map (· - 1) else counts.get? m := by
  unfold countDown
  split
  · next k hk =>
    rw [NameMap.get?_insert]
    by_cases hm : m = n
    · simp [hm, hk]
    · simp [hm]
  · next hk =>
    by_cases hm : m = n
    · subst hm
      rcases hc : counts.get? m with _ | _ | k
      · simp
      · simp
      · exact absurd hc (hk k)
    · simp [hm]

theorem release_cons (counts : NameMap Nat) (n : String) (ns : List String) :
    release counts (n :: ns) = (if counts.get? n = some 1 then n :: (release (countDown counts n) ns).1
      else (release (countDown counts n) ns).1, (release (countDown counts n) ns).2) := by
  rw [release, countDown]
  rcases hc : counts.get? n with _ | _ | k <;> simp

variable {counts : NameMap Nat} {ns : List String}

/-- Releasing takes 1 from the counter of each name. -/
theorem get?_release (hnd : ns.Nodup) (m : String) :
    (release counts ns).2.get? m = if m ∈ ns then (counts.get? m).map (· - 1) else counts.get? m := by
  induction ns generalizing counts with
  | nil => simp [release]
  | cons n ns ih =>
    obtain ⟨hn, hnd⟩ := List.nodup_cons.mp hnd
    rw [release_cons, ih hnd, get?_countDown]
    by_cases hm : m = n
    · simp [hm, hn]
    · simp [hm]

/-- The names whose counter was 1 are released, in their order. -/
theorem release_eq_filter (hnd : ns.Nodup) : (release counts ns).1 = ns.filter fun n => counts.get? n = some 1 := by
  induction ns generalizing counts with
  | nil => rfl
  | cons n ns ih =>
    obtain ⟨hn, hnd⟩ := List.nodup_cons.mp hnd
    have hrest : (ns.filter fun m => (countDown counts n).get? m = some 1) =
        ns.filter fun m => counts.get? m = some 1 := by
      refine List.filter_congr fun m hm => ?_
      have hne : m ≠ n := fun h => hn (h ▸ hm)
      rw [get?_countDown, if_neg hne]
    rw [release_cons, ih hnd, hrest, List.filter_cons]
    by_cases h1 : counts.get? n = some 1 <;> simp [h1]

/-! ### What an enumeration lists -/

/-- An enumeration of the graph in which the dependencies of a node `n` are `deps n`. -/
structure Lists (e : Enumeration) (deps : String → List String) : Prop where
  nodes_nodup : e.nodes.Nodup
  deps_nodup : ∀ n, (deps n).Nodup
  count : ∀ n, e.dependencyCount n = (deps n).length
  dependents_nodup : ∀ n, (e.dependents n).Nodup
  mem_dependents : ∀ n m, m ∈ e.dependents n ↔ n ∈ deps m
  mem_nodes : ∀ n d, d ∈ deps n → n ∈ e.nodes ∧ d ∈ e.nodes

def waiting (deps : String → List String) (taken : List String) (n : String) : List String :=
  (deps n).filter fun d => d ∉ taken

theorem mem_waiting {deps : String → List String} {taken : List String} {n d : String} :
    d ∈ waiting deps taken n ↔ d ∈ deps n ∧ d ∉ taken := by
  simp [waiting]

theorem waiting_eq_nil_iff {deps : String → List String} {taken : List String} {n : String} :
    waiting deps taken n = [] ↔ ∀ d ∈ deps n, d ∈ taken := by
  simp [waiting]

/-- Taking up one more node makes one dependency less, for the nodes that depend on it. -/
theorem length_waiting_append_singleton {deps : String → List String} {taken : List String} {n d : String}
    (hnd : (deps n).Nodup) (hd : d ∉ taken) :
    (waiting deps (taken ++ [d]) n).length =
      if d ∈ deps n then (waiting deps taken n).length - 1 else (waiting deps taken n).length := by
  have herase : waiting deps (taken ++ [d]) n = (waiting deps taken n).erase d := by
    rw [waiting, waiting, (hnd.filter _).erase_eq_filter, List.filter_filter]
    refine List.filter_congr fun c _ => ?_
    by_cases hc : c = d <;> simp [hc]
  rw [herase]
  split
  · next hmem => rw [List.length_erase_of_mem (mem_waiting.mpr ⟨hmem, hd⟩)]
  · next hmem => rw [List.erase_of_not_mem fun h => hmem (mem_waiting.mp h).1]

/-! ### The invariant -/

/-- The state of peeling: the nodes taken up, those in the queue, and the counters. -/
structure Peeling (e : Enumeration) (deps : String → List String) (taken queue : List String)
    (counts : NameMap Nat) : Prop where
  nodup : (taken ++ queue).Nodup
  nodes : ∀ n ∈ taken ++ queue, n ∈ e.nodes
  /-- A counter is the number of dependencies that are not taken up. -/
  count : ∀ n, counts.get? n = if n ∈ e.nodes then some (waiting deps taken n).length else none
  /-- The nodes that wait for nothing are taken up or in the queue. -/
  ready : ∀ n ∈ e.nodes, n ∈ taken ++ queue ↔ ∀ d ∈ deps n, d ∈ taken
  /-- A node is taken up after its dependencies. -/
  ordered : ∀ n ∈ taken, ∀ d ∈ deps n, taken.idxOf d < taken.idxOf n

variable {e : Enumeration} {deps : String → List String} {taken queue : List String} {n : String}

theorem mem_sortNames {names : List String} : n ∈ sortNames names ↔ n ∈ names :=
  List.mem_mergeSort

/-- Before anything is taken up, the sources are in the queue. -/
theorem Peeling.initial (h : e.Lists deps) : Peeling e deps [] (sortNames e.sources) e.initialCounts := by
  have hsources : ∀ n, n ∈ sortNames e.sources ↔ n ∈ e.nodes ∧ deps n = [] := by
    intro n
    simp [mem_sortNames, sources, h.count]
  refine ⟨?_, ?_, ?_, ?_, fun _ hn => absurd hn List.not_mem_nil⟩
  · exact (List.mergeSort_perm _ _).nodup_iff.mpr (h.nodes_nodup.filter _)
  · intro n hn
    exact ((hsources n).mp hn).1
  · intro n
    rw [initialCounts, NameMap.get?_ofList_map, h.count]
    simp [waiting]
  · intro n hn
    rw [List.nil_append, hsources]
    simp [hn, List.eq_nil_iff_forall_not_mem]

section Step

variable (h : Peeling e deps taken (n :: queue) counts)
include h

theorem Peeling.not_mem_taken : n ∉ taken :=
  fun hn => (List.nodup_append.mp h.nodup).2.2 n hn n List.mem_cons_self rfl

/-- The dependencies of the first node of the queue are taken up. -/
theorem Peeling.deps_taken : ∀ d ∈ deps n, d ∈ taken :=
  (h.ready n (h.nodes n (by simp))).mp (by simp)

/-- The nodes that are released when `n` is taken up: `n` was the last dependency that they waited for. -/
theorem Peeling.mem_released (hl : e.Lists deps) {m : String} :
    m ∈ sortNames (release counts (e.dependents n)).1 ↔ n ∈ deps m ∧ ∀ d ∈ deps m, d ∈ taken ++ [n] := by
  rw [mem_sortNames, release_eq_filter (hl.dependents_nodup n), List.mem_filter, hl.mem_dependents,
    ← waiting_eq_nil_iff, ← List.length_eq_zero_iff, length_waiting_append_singleton (hl.deps_nodup m) h.not_mem_taken]
  refine and_congr_right fun hmem => ?_
  have hpos : 0 < (waiting deps taken m).length :=
    List.length_pos_of_mem (mem_waiting.mpr ⟨hmem, h.not_mem_taken⟩)
  rw [h.count, if_pos (hl.mem_nodes m n hmem).1, if_pos hmem]
  simp only [Option.some.injEq, decide_eq_true_eq]
  omega

/-- A released node was not ready before. -/
theorem Peeling.not_mem_of_released (hl : e.Lists deps) {m : String}
    (hm : m ∈ sortNames (release counts (e.dependents n)).1) : m ∉ taken ++ n :: queue := by
  intro hold
  have hmem := ((h.mem_released hl).mp hm).1
  exact h.not_mem_taken ((h.ready m (hl.mem_nodes m n hmem).1).mp hold n hmem)

theorem Peeling.count_released (hl : e.Lists deps) (m : String) :
    (release counts (e.dependents n)).2.get? m =
      if m ∈ e.nodes then some (waiting deps (taken ++ [n]) m).length else none := by
  rw [get?_release (hl.dependents_nodup n), h.count,
    length_waiting_append_singleton (hl.deps_nodup m) h.not_mem_taken]
  by_cases hm : m ∈ e.nodes
  · by_cases hmem : n ∈ deps m <;> simp [hm, hl.mem_dependents, hmem]
  · have hmem : n ∉ deps m := fun hd => hm (hl.mem_nodes m n hd).1
    simp [hm, hl.mem_dependents]

theorem Peeling.ordered_append_singleton :
    ∀ m ∈ taken ++ [n], ∀ d ∈ deps m, (taken ++ [n]).idxOf d < (taken ++ [n]).idxOf m := by
  intro m hm d hd
  rcases List.mem_append.mp hm with hm | hm
  · have hdt : d ∈ taken := (h.ready m (h.nodes m (by simp [hm]))).mp (by simp [hm]) d hd
    rw [List.idxOf_append_of_mem hdt, List.idxOf_append_of_mem hm]
    exact h.ordered m hm d hd
  · rw [List.mem_singleton.mp hm] at hd ⊢
    have hdt := h.deps_taken d hd
    rw [List.idxOf_append_of_mem hdt, List.idxOf_append_of_notMem h.not_mem_taken]
    exact Nat.lt_of_lt_of_le (List.idxOf_lt_length_of_mem hdt) (Nat.le_add_right _ _)

/-- **Taking up the first node of the queue keeps the invariant.** -/
theorem Peeling.step (hl : e.Lists deps) :
    Peeling e deps (taken ++ [n]) (queue ++ sortNames (release counts (e.dependents n)).1)
      (release counts (e.dependents n)).2 := by
  have hassoc : taken ++ [n] ++ (queue ++ sortNames (release counts (e.dependents n)).1) =
      (taken ++ n :: queue) ++ sortNames (release counts (e.dependents n)).1 := by simp
  refine ⟨?_, ?_, h.count_released hl, ?_, h.ordered_append_singleton⟩
  · rw [hassoc, List.nodup_append]
    refine ⟨h.nodup, ?_, fun a ha b hb hab => h.not_mem_of_released hl hb (hab ▸ ha)⟩
    rw [sortNames, (List.mergeSort_perm _ _).nodup_iff, release_eq_filter (hl.dependents_nodup n)]
    exact (hl.dependents_nodup n).filter _
  · rw [hassoc]
    intro m hm
    rcases List.mem_append.mp hm with hm | hm
    · exact h.nodes m hm
    · exact (hl.mem_nodes m n ((h.mem_released hl).mp hm).1).1
  · intro m hm
    rw [hassoc, List.mem_append, h.mem_released hl]
    constructor
    · rintro (hold | hrel)
      · intro d hd
        exact List.mem_append_left _ ((h.ready m hm).mp hold d hd)
      · exact hrel.2
    · intro hall
      by_cases hmem : n ∈ deps m
      · exact .inr ⟨hmem, hall⟩
      · refine .inl ((h.ready m hm).mpr fun d hd => ?_)
        rcases List.mem_append.mp (hall d hd) with ht | ht
        · exact ht
        · exact absurd (List.mem_singleton.mp ht ▸ hd) hmem

end Step

/-- Peeling ends with an empty queue. -/
theorem Peeling.peel (h : Peeling e deps taken queue counts) (hl : e.Lists deps) :
    Peeling e deps (taken ++ (e.peel queue counts).1) [] (e.peel queue counts).2 := by
  fun_induction Enumeration.peel e queue counts generalizing taken with
  | case1 counts => simpa using h
  | case2 counts n queue released rest =>
    rename_i ih
    simpa using ih (h.step hl)

/-! ### Ordered and blocked nodes -/

variable (h : e.Lists deps)
include h

/-- At the end the queue is empty, so the order is what was taken up. -/
theorem peeling_sort : Peeling e deps e.sort.order [] (e.peel (sortNames e.sources) e.initialCounts).2 := by
  simpa [sort] using (Peeling.initial h).peel h

theorem nodup_order : e.sort.order.Nodup := by
  simpa using (peeling_sort h).nodup

/-- A node is ordered if all its dependencies are. -/
theorem mem_order_iff : n ∈ e.sort.order ↔ n ∈ e.nodes ∧ ∀ d ∈ deps n, d ∈ e.sort.order := by
  have hp := peeling_sort h
  constructor
  · intro hn
    have hmem := hp.nodes n (by simp [hn])
    exact ⟨hmem, (hp.ready n hmem).mp (by simp [hn])⟩
  · rintro ⟨hmem, hdeps⟩
    simpa using (hp.ready n hmem).mpr hdeps

/-- **An ordered node comes after its dependencies.** -/
theorem idxOf_order_lt {d : String} (hn : n ∈ e.sort.order) (hd : d ∈ deps n) :
    e.sort.order.idxOf d < e.sort.order.idxOf n :=
  (peeling_sort h).ordered n hn d hd

/-- **The nodes that are not ordered are blocked.** -/
theorem mem_blocked_iff_not_mem_order : n ∈ e.sort.blocked ↔ n ∈ e.nodes ∧ n ∉ e.sort.order := by
  have hp := peeling_sort h
  have hcount : n ∈ e.sort.blocked ↔
      ∃ k, (e.peel (sortNames e.sources) e.initialCounts).2.get? n = some k ∧ 0 < k := by
    simp [sort, NameMap.get?_eq_some_iff]
  rw [hcount, hp.count]
  by_cases hn : n ∈ e.nodes
  · have hready := hp.ready n hn
    rw [← waiting_eq_nil_iff, List.append_nil, ← List.length_eq_zero_iff] at hready
    simp only [hn, if_true, Option.some.injEq, exists_eq_left', true_and, hready]
    exact Nat.pos_iff_ne_zero
  · simp [hn]

/-! ### Cycles -/

/-- Along dependencies an ordered node leads to ordered nodes only. -/
theorem mem_order_of_reflTransGen {m : String} (hn : n ∈ e.sort.order) (hr : ReflTransGen (fun a b => b ∈ deps a) n m) :
    m ∈ e.sort.order := by
  induction hr with
  | refl => exact hn
  | tail _ hd ih => exact ((mem_order_iff h).mp ih).2 _ hd

theorem idxOf_order_lt_of_transGen {m : String} (hn : n ∈ e.sort.order) (hr : TransGen (fun a b => b ∈ deps a) n m) :
    e.sort.order.idxOf m < e.sort.order.idxOf n := by
  induction hr with
  | single hd => exact idxOf_order_lt h hn hd
  | tail hr hd ih => exact Nat.lt_trans (idxOf_order_lt h (mem_order_of_reflTransGen h hn hr.to_reflTransGen) hd) ih

/-- A blocked node has a blocked dependency. -/
theorem exists_blocked_of_blocked (hn : n ∈ e.sort.blocked) : ∃ d ∈ e.sort.blocked, d ∈ deps n := by
  obtain ⟨hmem, hno⟩ := (mem_blocked_iff_not_mem_order h).mp hn
  have hwait : ¬ ∀ d ∈ deps n, d ∈ e.sort.order := fun hall => hno ((mem_order_iff h).mpr ⟨hmem, hall⟩)
  push Not at hwait
  obtain ⟨d, hd, hdo⟩ := hwait
  exact ⟨d, (mem_blocked_iff_not_mem_order h).mpr ⟨(h.mem_nodes n d hd).2, hdo⟩, hd⟩

/-- **A node is blocked exactly if it leads to a cycle.** -/
theorem mem_blocked_iff_exists_cycle : n ∈ e.sort.blocked ↔
    ∃ m, ReflTransGen (fun a b => b ∈ deps a) n m ∧ TransGen (fun a b => b ∈ deps a) m m := by
  constructor
  · intro hn
    exact exists_cycle_of_forall_exists (fun m hm => exists_blocked_of_blocked h hm) hn
  · rintro ⟨m, hr, hc⟩
    have hno : n ∉ e.sort.order := by
      intro hn
      exact Nat.lt_irrefl _ (idxOf_order_lt_of_transGen h (mem_order_of_reflTransGen h hn hr) hc)
    -- a node that leads to a cycle has a dependency
    obtain ⟨d, hd⟩ : ∃ d, d ∈ deps n := by
      rcases hr.cases_head with rfl | ⟨d, hd, -⟩
      · obtain ⟨d, hd, -⟩ := TransGen.head'_iff.mp hc
        exact ⟨d, hd⟩
      · exact ⟨d, hd⟩
    exact (mem_blocked_iff_not_mem_order h).mpr ⟨(h.mem_nodes n d hd).1, hno⟩

end Enumeration
end Dimensional
