/-!
# Maps keyed by names

A finite map from names to values, kept as the list of its entries in the order of code points. The order is strict,
so a map is determined by its look-ups (`NameMap.ext_get?`).
-/

namespace Dimensional

/-- A finite map from names, its entries in strictly increasing order of their names. -/
structure NameMap (α : Type) where
  entries : List (String × α)
  sorted : entries.Pairwise (fun a b => a.1 < b.1)
deriving DecidableEq

namespace NameMap

variable {α β : Type}

/-! ### Insertion into an ordered list -/

/-- Put a name's value at its place, over the value it had. -/
def insertEntry (name : String) (value : α) : List (String × α) → List (String × α)
  | [] => [(name, value)]
  | e :: rest =>
    if name < e.1 then (name, value) :: e :: rest
    else if name = e.1 then (name, value) :: rest
    else e :: insertEntry name value rest

/-- The value that a list of entries gives a name. -/
def lookupEntry (name : String) : List (String × α) → Option α
  | [] => none
  | e :: rest => if name = e.1 then some e.2 else lookupEntry name rest

theorem mem_insertEntry {name : String} {value : α} {e : String × α} {es : List (String × α)}
    (h : e ∈ insertEntry name value es) : e = (name, value) ∨ e ∈ es := by
  induction es with
  | nil => simpa [insertEntry] using h
  | cons d rest ih =>
    rw [insertEntry] at h
    split at h
    · simpa using h
    · split at h
      · rcases List.mem_cons.mp h with h | h
        · exact .inl h
        · exact .inr (List.mem_cons_of_mem _ h)
      · rcases List.mem_cons.mp h with h | h
        · exact .inr (h ▸ List.mem_cons_self)
        · exact (ih h).imp_right (List.mem_cons_of_mem _)

theorem lt_of_not_lt_of_ne {a b : String} (h : ¬ a < b) (hne : a ≠ b) : b < a := by
  rcases Decidable.em (b < a) with h' | h'
  · exact h'
  · exact absurd (String.le_antisymm (String.not_lt.mp h') (String.not_lt.mp h)) hne

theorem sorted_insertEntry (name : String) (value : α) {es : List (String × α)}
    (h : es.Pairwise (fun a b => a.1 < b.1)) :
    (insertEntry name value es).Pairwise (fun a b => a.1 < b.1) := by
  induction es with
  | nil => simp [insertEntry]
  | cons d rest ih =>
    have hd := List.pairwise_cons.mp h
    rw [insertEntry]
    split
    · next hlt =>
      refine List.pairwise_cons.mpr ⟨fun e he => ?_, h⟩
      rcases List.mem_cons.mp he with rfl | he
      · exact hlt
      · exact String.lt_trans hlt (hd.1 e he)
    · next hlt =>
      split
      · next heq => exact List.pairwise_cons.mpr ⟨fun e he => heq ▸ hd.1 e he, hd.2⟩
      · next hne =>
        refine List.pairwise_cons.mpr ⟨fun e he => ?_, ih hd.2⟩
        rcases mem_insertEntry he with rfl | he
        · exact lt_of_not_lt_of_ne hlt hne
        · exact hd.1 e he

/-! ### The map -/

/-- The map without entries. -/
def empty : NameMap α := ⟨[], .nil⟩

instance : Inhabited (NameMap α) := ⟨empty⟩

/-- The value of a name, if it has one. -/
def get? (m : NameMap α) (name : String) : Option α :=
  lookupEntry name m.entries

/-- Whether a name has a value. -/
def contains (m : NameMap α) (name : String) : Bool :=
  (m.get? name).isSome

/-- The names that have a value, in order. -/
def names (m : NameMap α) : List String :=
  m.entries.map Prod.fst

/-- The number of names that have a value. -/
def size (m : NameMap α) : Nat :=
  m.entries.length

def isEmpty (m : NameMap α) : Bool :=
  m.entries.isEmpty

/-- Give a name a value, over the value it had. -/
def insert (m : NameMap α) (name : String) (value : α) : NameMap α :=
  ⟨insertEntry name value m.entries, sorted_insertEntry name value m.sorted⟩

/-- Take a name's value away. -/
def erase (m : NameMap α) (name : String) : NameMap α :=
  ⟨m.entries.filter (fun e => e.1 != name), m.sorted.filter _⟩

/-- The map of a list of entries; of several values for one name the last one counts. -/
def ofList (es : List (String × α)) : NameMap α :=
  es.foldl (fun m e => m.insert e.1 e.2) empty

/-- All entries of both maps; a name of both has its value in the second. -/
def merge (m other : NameMap α) : NameMap α :=
  other.entries.foldl (fun m e => m.insert e.1 e.2) m

/-! ### Look-ups -/

theorem lookupEntry_insertEntry (name name' : String) (value : α) (es : List (String × α)) :
    lookupEntry name' (insertEntry name value es) = if name' = name then some value else lookupEntry name' es := by
  induction es with
  | nil => rfl
  | cons d rest ih =>
    rw [insertEntry]
    split
    · rfl
    · split
      · next heq => by_cases h : name' = name <;> simp [lookupEntry, h, ← heq]
      · next hne =>
        by_cases h : name' = d.1
        · have : d.1 ≠ name := fun h' => hne h'.symm
          simp [lookupEntry, h, this]
        · simp [lookupEntry, h, ih]

theorem lookupEntry_eq_some_iff {es : List (String × α)} (h : es.Pairwise (fun a b => a.1 < b.1)) {name : String}
    {value : α} : lookupEntry name es = some value ↔ (name, value) ∈ es := by
  induction es with
  | nil => simp [lookupEntry]
  | cons d rest ih =>
    have hd := List.pairwise_cons.mp h
    by_cases hn : name = d.1
    · subst hn
      simp only [lookupEntry, if_true, Option.some.injEq, List.mem_cons]
      constructor
      · rintro rfl; exact .inl rfl
      · rintro (h | h)
        · exact congrArg Prod.snd h.symm
        · exact absurd (hd.1 _ h) (String.lt_irrefl _)
    · have : (name, value) ≠ d := fun h' => hn (congrArg Prod.fst h')
      simp [lookupEntry, hn, ih hd.2, this]

/-- A name below all names of an ordered list has no entry there. -/
theorem lookupEntry_eq_none {es : List (String × α)} {name : String} (h : ∀ e ∈ es, name < e.1) :
    lookupEntry name es = none := by
  induction es with
  | nil => rfl
  | cons d rest ih =>
    have : name ≠ d.1 := fun h' => String.lt_irrefl _ (h' ▸ h d List.mem_cons_self)
    simpa [lookupEntry, this] using ih (fun e he => h e (List.mem_cons_of_mem _ he))

/-- Ordered lists that give the same values to all names are equal. -/
theorem eq_of_lookupEntry_eq {es₁ es₂ : List (String × α)} (h₁ : es₁.Pairwise (fun a b => a.1 < b.1))
    (h₂ : es₂.Pairwise (fun a b => a.1 < b.1)) (h : ∀ name, lookupEntry name es₁ = lookupEntry name es₂) :
    es₁ = es₂ := by
  induction es₁ generalizing es₂ with
  | nil =>
    cases es₂ with
    | nil => rfl
    | cons d _ => simpa [lookupEntry] using h d.1
  | cons d₁ rest₁ ih =>
    cases es₂ with
    | nil => simpa [lookupEntry] using h d₁.1
    | cons d₂ rest₂ =>
      have m₁ := (lookupEntry_eq_some_iff h₂).mp ((h d₁.1).symm.trans (if_pos rfl))
      have m₂ := (lookupEntry_eq_some_iff h₁).mp ((h d₂.1).trans (if_pos rfl))
      have p₁ := List.pairwise_cons.mp h₁
      have p₂ := List.pairwise_cons.mp h₂
      have hd : d₁ = d₂ := by
        rcases List.mem_cons.mp m₁ with e | m₁
        · exact e
        · rcases List.mem_cons.mp m₂ with e | m₂
          · exact e.symm
          · exact absurd (p₂.1 _ m₁) (String.lt_asymm (p₁.1 _ m₂))
      subst hd
      congr 1
      refine ih p₁.2 p₂.2 (fun name => ?_)
      by_cases hn : name = d₁.1
      · subst hn
        rw [lookupEntry_eq_none p₁.1, lookupEntry_eq_none p₂.1]
      · simpa [lookupEntry, hn] using h name

@[simp]
theorem get?_empty (name : String) : (empty : NameMap α).get? name = none := rfl

theorem get?_eq_some_iff {m : NameMap α} {name : String} {value : α} :
    m.get? name = some value ↔ (name, value) ∈ m.entries :=
  lookupEntry_eq_some_iff m.sorted

theorem get?_insert (m : NameMap α) (name name' : String) (value : α) :
    (m.insert name value).get? name' = if name' = name then some value else m.get? name' :=
  lookupEntry_insertEntry name name' value m.entries

theorem get?_erase (m : NameMap α) (name name' : String) :
    (m.erase name).get? name' = if name' = name then none else m.get? name' := by
  have key : ∀ es : List (String × α), lookupEntry name' (es.filter (fun e => e.1 != name)) =
      if name' = name then none else lookupEntry name' es := by
    intro es
    induction es with
    | nil => simp [lookupEntry]
    | cons d rest ih =>
      by_cases hd : d.1 = name
      · by_cases h : name' = name <;> simp_all [lookupEntry]
      · by_cases h : name' = d.1
        · simp [lookupEntry, hd, h]
        · simp [lookupEntry, hd, h, ih]
  exact key m.entries

/-- Maps with the same look-ups are equal. -/
theorem ext_get? {m₁ m₂ : NameMap α} (h : ∀ name, m₁.get? name = m₂.get? name) : m₁ = m₂ := by
  obtain ⟨es₁, h₁⟩ := m₁
  obtain ⟨es₂, h₂⟩ := m₂
  have : es₁ = es₂ := eq_of_lookupEntry_eq h₁ h₂ h
  subst this
  rfl

end NameMap
end Dimensional
