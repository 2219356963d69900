import Dimensional.UnitSystem

/-!
# Dependency order

The names that definitions refer to make a graph. `DependencyGraph.sort` lists its nodes so that each comes after all of
its dependencies, as far as that is possible: nodes that reach a cycle are left over.

Names are taken up as soon as their dependencies are listed, those taken up together in the order of the names. So the
result does not depend on the order in which nodes and dependencies are given, which `Enumeration` keeps apart from the
algorithm.
-/

namespace Dimensional

/-- Names in order. -/
def sortNames (names : List String) : List String :=
  names.mergeSort fun a b => decide (a ≤ b)

/-! ### Peeling -/

/-- The nodes of a graph in some order: how many dependencies each has, and which nodes depend on it, again in some
order. -/
structure Enumeration where
  nodes : List String
  dependencyCount : String → Nat
  dependents : String → List String

namespace Enumeration

/-- The sum of counters. -/
def sumOf (es : List (String × Nat)) : Nat :=
  es.foldr (fun e s => e.2 + s) 0

/-- The sum of all counters. -/
def total (counts : NameMap Nat) : Nat :=
  sumOf counts.entries

/-- Count one dependency less for each of some nodes; the nodes that have none left are returned. -/
def release (counts : NameMap Nat) : List String → List String × NameMap Nat
  | [] => ([], counts)
  | n :: rest =>
    match counts.get? n with
    | some (k + 1) =>
      let released := release (counts.insert n k) rest
      (if k = 0 then n :: released.1 else released.1, released.2)
    | _ => release counts rest

theorem sumOf_insertEntry {n : String} {k : Nat} {es : List (String × Nat)} (hs : es.Pairwise (fun a b => a.1 < b.1))
    (h : NameMap.lookupEntry n es = some (k + 1)) :
    sumOf (NameMap.insertEntry n k es) + 1 = sumOf es := by
  induction es with
  | nil => simp [NameMap.lookupEntry] at h
  | cons d rest ih =>
    have hd := List.pairwise_cons.mp hs
    by_cases hn : n = d.1
    · have h2 : d.2 = k + 1 := by simpa [NameMap.lookupEntry, hn] using h
      have hlt : ¬ d.1 < d.1 := String.lt_irrefl _
      simp only [sumOf, NameMap.insertEntry, hn, hlt, if_false, if_true, List.foldr_cons, h2]
      omega
    · have hr : NameMap.lookupEntry n rest = some (k + 1) := by simpa [NameMap.lookupEntry, hn] using h
      have hlt : ¬ n < d.1 := fun hlt =>
        String.lt_asymm hlt (hd.1 _ ((NameMap.lookupEntry_eq_some_iff hd.2).mp hr))
      have := ih hd.2 hr
      simp only [sumOf, NameMap.insertEntry, hn, hlt, if_false, List.foldr_cons] at this ⊢
      omega

theorem total_insert {counts : NameMap Nat} {n : String} {k : Nat} (h : counts.get? n = some (k + 1)) :
    total (counts.insert n k) + 1 = total counts :=
  sumOf_insertEntry counts.sorted h

/-- Every node that is released takes away from the counters. -/
theorem total_release_le (counts : NameMap Nat) (ns : List String) :
    total (release counts ns).2 + (release counts ns).1.length ≤ total counts := by
  induction ns generalizing counts with
  | nil => simp [release]
  | cons n rest ih =>
    rw [release]
    split
    · next k hk =>
      have := total_insert hk
      have := ih (counts.insert n k)
      dsimp only
      split
      · rw [List.length_cons]
        omega
      · omega
    · exact ih counts

/-- Take up the nodes of a queue one after the other, and behind them the nodes that they release. The counters that are
left are returned too. -/
def peel (e : Enumeration) (queue : List String) (counts : NameMap Nat) : List String × NameMap Nat :=
  match queue with
  | [] => ([], counts)
  | n :: queue =>
    let released := release counts (e.dependents n)
    let rest := peel e (queue ++ sortNames released.1) released.2
    (n :: rest.1, rest.2)
termination_by total counts + queue.length
decreasing_by
  have := total_release_le counts (e.dependents n)
  simp only [sortNames, List.length_append, List.length_mergeSort, List.length_cons]
  omega

/-- The counters before any node is taken up. -/
def initialCounts (e : Enumeration) : NameMap Nat :=
  .ofList (e.nodes.map fun n => (n, e.dependencyCount n))

/-- The nodes without dependencies. -/
def sources (e : Enumeration) : List String :=
  e.nodes.filter fun n => e.dependencyCount n == 0

end Enumeration

/-- The nodes of a graph in dependency order, and those that have no place in it. -/
structure DependencyOrder where
  order : List String
  blocked : List String
deriving DecidableEq, Inhabited

/-- Order the nodes: those without dependencies first, then those that depend on ordered nodes only. The others are
blocked. -/
def Enumeration.sort (e : Enumeration) : DependencyOrder :=
  let peeled := e.peel (sortNames e.sources) e.initialCounts
  ⟨peeled.1, (peeled.2.entries.filter fun c => 0 < c.2).map Prod.fst⟩

/-! ### Graphs -/

/-- Nodes with the set of their dependencies; dependencies need not be nodes with an entry. -/
structure DependencyGraph where
  entries : List (String × List String)
deriving DecidableEq, Inhabited

namespace DependencyGraph

/-- The graph of a list of nodes and dependencies, which may be repeated. -/
def ofList (es : List (String × List String)) : DependencyGraph :=
  ⟨es.map fun e => (e.1, e.2.eraseDups)⟩

/-- The graph of a unit system: every defined unit with the names that its definition refers to. -/
def ofSystem (system : UnitSystem) : DependencyGraph :=
  .ofList (system.entries.map fun e => (e.1, e.2.references))

/-- The dependencies of a node. -/
def dependencies (g : DependencyGraph) (n : String) : List String :=
  match g.entries.find? (fun e => e.1 == n) with
  | some e => e.2
  | none => []

/-- All nodes and dependencies. -/
def nodes (g : DependencyGraph) : List String :=
  (g.entries.flatMap fun e => e.1 :: e.2).eraseDups

/-- The nodes that depend on a node. -/
def dependents (g : DependencyGraph) (n : String) : List String :=
  (g.entries.filter fun e => n ∈ e.2).map Prod.fst

/-- The graph's own order of nodes and dependents. -/
def enumeration (g : DependencyGraph) : Enumeration where
  nodes := g.nodes
  dependencyCount n := (g.dependencies n).length
  dependents := g.dependents

/-- The nodes in dependency order. -/
def sort (g : DependencyGraph) : DependencyOrder :=
  g.enumeration.sort

end DependencyGraph
end Dimensional
