import Dimensional.Diagnostic
import Dimensional.Json.Value
import Dimensional.Proofs.NameMap.Merging
import Mathlib.Data.List.Perm.Basic

/-!
# Objects in any order

The order of the members of an object does not matter to what is encoded: a map that is kept in no order is written in
any order. `Json.Reordered` relates values that differ only in that, and the entries of a map can be inserted in any
order (`NameMap.foldl_insert_perm`).
-/

namespace Dimensional
namespace Json

mutual

/-- The value with the members of its objects in another order. -/
inductive Reordered : Json → Json → Prop
  | null : Reordered .null .null
  | bool (b : Bool) : Reordered (.bool b) (.bool b)
  | number (n : Number) : Reordered (.number n) (.number n)
  | string (text : String) : Reordered (.string text) (.string text)
  | list {items items' : List Json} (h : ReorderedItems items items') : Reordered (.list items) (.list items')
  | object {members others members' : List (String × Json)} (h : ReorderedMembers members others)
      (hp : others.Perm members') : Reordered (.object members) (.object members')

inductive ReorderedItems : List Json → List Json → Prop
  | nil : ReorderedItems [] []
  | cons {item item' : Json} {rest rest' : List Json} (h : Reordered item item') (hrest : ReorderedItems rest rest') :
      ReorderedItems (item :: rest) (item' :: rest')

inductive ReorderedMembers : List (String × Json) → List (String × Json) → Prop
  | nil : ReorderedMembers [] []
  | cons (name : String) {value value' : Json} {rest rest' : List (String × Json)} (h : Reordered value value')
      (hrest : ReorderedMembers rest rest') : ReorderedMembers ((name, value) :: rest) ((name, value') :: rest')

end

mutual

theorem Reordered.refl : ∀ j : Json, Reordered j j
  | .null => .null
  | .bool b => .bool b
  | .number n => .number n
  | .string text => .string text
  | .list items => .list (ReorderedItems.refl items)
  | .object members => .object (ReorderedMembers.refl members) (.refl members)

theorem ReorderedItems.refl : ∀ items : List Json, ReorderedItems items items
  | [] => .nil
  | item :: rest => .cons (Reordered.refl item) (ReorderedItems.refl rest)

theorem ReorderedMembers.refl : ∀ members : List (String × Json), ReorderedMembers members members
  | [] => .nil
  | (name, value) :: rest => .cons name (Reordered.refl value) (ReorderedMembers.refl rest)

end

/-! ### Values without objects -/

/-- A value that has nothing to reorder. -/
def Rigid (j : Json) : Prop := ∀ j', Reordered j j' → j' = j

variable {j : Json} {items : List Json} {members : List (String × Json)}

theorem rigid_null : Rigid .null := by
  rintro _ ⟨⟩
  rfl

theorem rigid_number (n : Number) : Rigid (.number n) := by
  rintro _ ⟨⟩
  rfl

theorem rigid_string (text : String) : Rigid (.string text) := by
  rintro _ ⟨⟩
  rfl

theorem ReorderedItems.eq_of_rigid {items' : List Json} (hr : ReorderedItems items items')
    (h : ∀ item ∈ items, item.Rigid) : items' = items := by
  induction items generalizing items' with
  | nil =>
    cases hr
    rfl
  | cons item rest ih =>
    cases hr with
    | cons hfirst hrest => rw [h item (by simp) _ hfirst, ih hrest fun i hi => h i (List.mem_cons_of_mem _ hi)]

theorem ReorderedMembers.eq_of_rigid {members' : List (String × Json)} (hr : ReorderedMembers members members')
    (h : ∀ m ∈ members, m.2.Rigid) : members' = members := by
  induction members generalizing members' with
  | nil =>
    cases hr
    rfl
  | cons m rest ih =>
    cases hr with
    | cons name hfirst hrest =>
      rw [h (name, _) (by simp) _ hfirst, ih hrest fun i hi => h i (List.mem_cons_of_mem _ hi)]

theorem rigid_list (h : ∀ item ∈ items, item.Rigid) : Rigid (.list items) := by
  intro j hj
  cases hj with
  | list hitems => rw [hitems.eq_of_rigid h]

/-- Reordered encodings of entries are encodings of reordered entries. -/
theorem exists_map_of_reordered {κ : Type} {encode : κ → String × Json} {entries : List κ}
    (hj : Reordered (.object (entries.map encode)) j) (h : ∀ e ∈ entries, (encode e).2.Rigid) :
    ∃ entries' : List κ, entries'.Perm entries ∧ j = .object (entries'.map encode) := by
  have hrigid : ∀ m ∈ entries.map encode, m.2.Rigid := by
    intro m hm
    obtain ⟨e, he, rfl⟩ := List.mem_map.mp hm
    exact h e he
  cases hj with
  | @object _ others members' hothers hp =>
    rw [hothers.eq_of_rigid hrigid] at hp
    have hcomp : Relation.Comp (· = List.map encode ·) (·.Perm ·) members' entries := by
      rw [List.eq_map_comp_perm]
      exact hp.symm
    obtain ⟨entries', hmap, hp'⟩ := hcomp
    exact ⟨entries', hp', congrArg Json.object hmap⟩

end Json

/-! ### Entries in any order -/

/-- The order in which entries with different names are added does not matter. -/
theorem foldl_eq_of_perm {σ κ ν : Type} {name : κ → ν} {step : σ → κ → σ} {entries entries' : List κ}
    (hp : entries'.Perm entries) (hnodup : (entries.map name).Nodup)
    (hcomm : ∀ x y s, name x ≠ name y → step (step s x) y = step (step s y) x) (s : σ) :
    entries'.foldl step s = entries.foldl step s := by
  refine hp.foldl_eq' (fun x hx y hy s => ?_) s
  by_cases hname : name x = name y
  · rw [List.inj_on_of_nodup_map hnodup (hp.mem_iff.mp hx) (hp.mem_iff.mp hy) hname]
  · exact hcomm x y s hname

namespace NameMap

variable {α : Type}

theorem insert_insert_comm (m : NameMap α) {n n' : String} (v v' : α) (h : n ≠ n') :
    (m.insert n v).insert n' v' = (m.insert n' v').insert n v := by
  refine ext_get? fun name => ?_
  simp only [get?_insert]
  by_cases hn : name = n
  · subst hn
    simp [h]
  · simp [hn]

/-- A map is what its entries make, in any order. -/
theorem foldl_insert_perm {entries : List (String × α)} {m : NameMap α} (hp : entries.Perm m.entries) :
    entries.foldl (fun m e => m.insert e.1 e.2) empty = m := by
  rw [foldl_eq_of_perm hp m.nodup_names (fun x y s h => s.insert_insert_comm x.2 y.2 h)]
  refine ext_get? fun name => ?_
  rw [get?_foldl_insert m.sorted, get?_empty, Option.or_none]
  rfl

end NameMap

namespace MessageCatalog

theorem insert_insert_comm (c : MessageCatalog) {i i' : MessageId} (t t' : String) (h : i ≠ i') :
    (c.insert i t).insert i' t' = (c.insert i' t').insert i t := by
  ext1 id
  simp only [insert]
  by_cases hi : id = i
  · subst hi
    simp [h]
  · simp [hi]

/-- The wordings that a catalog replaces, put into another one for some kinds of messages. -/
theorem override_foldl_insert (c start : MessageCatalog) (ids : List MessageId) (id : MessageId) :
    ((ids.filterMap fun id => (c.override id).map (id, ·)).foldl (fun c o => c.insert o.1 o.2) start).override id =
      if id ∈ ids then (c.override id).or (start.override id) else start.override id := by
  induction ids generalizing start with
  | nil => rfl
  | cons first rest ih =>
    cases hc : c.override first with
    | none =>
      rw [List.filterMap_cons_none (by simp [hc]), ih]
      by_cases hid : id = first
      · subst hid
        simp [hc]
      · simp [hid]
    | some text =>
      rw [List.filterMap_cons_some (b := (first, text)) (by simp [hc]), List.foldl_cons, ih]
      by_cases hid : id = first
      · subst hid
        simp [hc, insert]
      · simp [hid, insert]

theorem nodup_overrides (c : MessageCatalog) : (c.overrides.map Prod.fst).Nodup := by
  have hfirst : ∀ id, ((c.override id).map (id, ·)).map Prod.fst = (c.override id).map fun _ => id := by
    intro id
    cases c.override id <;> rfl
  rw [overrides, List.map_filterMap, funext hfirst]
  refine List.Nodup.filterMap (fun i i' b hb hb' => ?_) (by decide)
  obtain ⟨-, -, rfl⟩ := Option.mem_map.mp hb
  obtain ⟨-, -, heq⟩ := Option.mem_map.mp hb'
  exact heq.symm

/-- A catalog is what its overrides make, in any order. -/
theorem foldl_insert_perm {os : List (MessageId × String)} {c : MessageCatalog} (hp : os.Perm c.overrides) :
    os.foldl (fun c o => c.insert o.1 o.2) english = c := by
  rw [foldl_eq_of_perm hp c.nodup_overrides (fun x y s h => s.insert_insert_comm x.2 y.2 h)]
  ext1 id
  rw [overrides, override_foldl_insert, if_pos (MessageId.mem_all id)]
  simp [english]

end MessageCatalog
end Dimensional
