import Dimensional.NameMap
import Mathlib.Data.Finset.Card

/-!
# Merged maps

The names of a map as a finite set (`keys`), and what is looked up in two merged maps: the second one answers first
(`get?_merge`). So the merged map has the names of both, each counted once (`size_merge`).
-/

namespace Dimensional
namespace NameMap

variable {α : Type} {m other : NameMap α} {name : String}

/-! ### Names -/

def keys (m : NameMap α) : Finset String := m.names.toFinset

theorem mem_names : name ∈ m.names ↔ (m.get? name).isSome = true := by
  rw [names, List.mem_map, Option.isSome_iff_exists]
  constructor
  · rintro ⟨e, he, rfl⟩
    exact ⟨e.2, get?_eq_some_iff.mpr he⟩
  · rintro ⟨v, hv⟩
    exact ⟨(name, v), get?_eq_some_iff.mp hv, rfl⟩

theorem mem_keys : name ∈ m.keys ↔ (m.get? name).isSome = true := by
  rw [keys, List.mem_toFinset, mem_names]

theorem nodup_names (m : NameMap α) : m.names.Nodup := by
  have hlt : m.names.Pairwise (· < ·) := List.pairwise_map.mpr m.sorted
  refine hlt.imp fun {a b} hab heq => ?_
  subst heq
  exact String.lt_irrefl a hab

theorem card_keys (m : NameMap α) : m.keys.card = m.size := by
  rw [keys, List.toFinset_card_of_nodup m.nodup_names, names, List.length_map, size]

/-! ### Merging -/

theorem get?_foldl_insert {es : List (String × α)} (h : es.Pairwise fun a b => a.1 < b.1) (m : NameMap α)
    (name : String) :
    (es.foldl (fun m e => m.insert e.1 e.2) m).get? name = (lookupEntry name es).or (m.get? name) := by
  induction es generalizing m with
  | nil => rfl
  | cons e es ih =>
    obtain ⟨hlt, hrest⟩ := List.pairwise_cons.mp h
    rw [List.foldl_cons, ih hrest, get?_insert]
    by_cases hname : name = e.1
    · -- the names behind the first one are greater, so none of them overwrites it
      subst hname
      rw [lookupEntry_eq_none hlt]
      simp [lookupEntry]
    · simp [lookupEntry, hname]

/-- **The second map answers first.** -/
theorem get?_merge (m other : NameMap α) (name : String) :
    (m.merge other).get? name = (other.get? name).or (m.get? name) :=
  get?_foldl_insert other.sorted m name

theorem keys_merge (m other : NameMap α) : (m.merge other).keys = m.keys ∪ other.keys := by
  ext name
  rw [Finset.mem_union, mem_keys, mem_keys, mem_keys, get?_merge, Option.isSome_or, Bool.or_eq_true, or_comm]

theorem size_merge (m other : NameMap α) : (m.merge other).size = (m.keys ∪ other.keys).card := by
  rw [← card_keys, keys_merge]

/-- The names of one map and those of another that are new to it are as many as both maps have together. -/
theorem size_add_length_new (m other : NameMap α) :
    m.size + (other.names.filter fun n => !m.contains n).length = (m.keys ∪ other.keys).card := by
  have hnew : (other.names.filter fun n => !m.contains n).toFinset = other.keys \ m.keys := by
    ext name
    simp [mem_names, mem_keys, contains]
  have hlength := List.toFinset_card_of_nodup (other.nodup_names.filter fun n => !m.contains n)
  rw [← hlength, hnew, ← card_keys, Nat.add_comm, Finset.card_sdiff_add_card, Finset.union_comm]

end NameMap
end Dimensional
