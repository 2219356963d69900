import Dimensional.Proofs.Resolver.Loading

/-!
# Layers

Unit system files that are loaded one after the other lie over each other: of each name and each wording the last layer
counts that has one (`lastGiven`, `lastGiven_eq_some_iff`). `Resolver.extendAll` puts files over a resolver without a look
at the limit, and `Resolver.holds_extendAll` says what the resolver holds then. `Resolver.addText_eq_ok_iff` is one step
of loading, with the limit.
-/

namespace Dimensional

/-! ### The last one that counts -/

section LastGiven

variable {α β : Type} {give : α → Option β}

/-- What the last of some items gives that gives anything. -/
def lastGiven (give : α → Option β) (items : List α) : Option β :=
  items.reverse.findSome? give

theorem lastGiven_eq_some_iff {items : List α} {value : β} : lastGiven give items = some value ↔
    ∃ before item after, items = before ++ item :: after ∧ give item = some value ∧
      ∀ later ∈ after, give later = none := by
  rw [lastGiven, List.findSome?_eq_some_iff]
  constructor
  · rintro ⟨after, item, before, hitems, hgive, hafter⟩
    refine ⟨before.reverse, item, after.reverse, ?_, hgive, fun later h => hafter later (List.mem_reverse.mp h)⟩
    rw [← items.reverse_reverse, hitems]
    simp
  · rintro ⟨before, item, after, rfl, hgive, hafter⟩
    exact ⟨after.reverse, item, before.reverse, by simp, hgive, fun later h => hafter later (List.mem_reverse.mp h)⟩

@[simp]
theorem lastGiven_nil : lastGiven give [] = none := rfl

@[simp]
theorem lastGiven_cons (item : α) (items : List α) :
    lastGiven give (item :: items) = (lastGiven give items).or (give item) := by
  simp [lastGiven, List.findSome?_append]

@[simp]
theorem lastGiven_append (first second : List α) :
    lastGiven give (first ++ second) = (lastGiven give second).or (lastGiven give first) := by
  simp [lastGiven, List.findSome?_append]

/-- A layer that does not have the name leaves it to the ones below. -/
example : lastGiven (·.get? "m") [UnitSystem.si, .ofList [("m", .synonym "SI.second")], .ofList [("kg", .base)]] =
    some (.synonym "SI.second") := by
  decide

end LastGiven

/-! ### The names of all -/

def namesOfAll (systems : List UnitSystem) : Finset String :=
  (systems.flatMap NameMap.names).toFinset

theorem namesOfAll_cons (system : UnitSystem) (systems : List UnitSystem) :
    namesOfAll (system :: systems) = system.keys ∪ namesOfAll systems := by
  rw [namesOfAll, List.flatMap_cons, List.toFinset_append]
  rfl

theorem namesOfAll_singleton (system : UnitSystem) : namesOfAll [system] = system.keys := by
  rw [namesOfAll_cons]
  exact Finset.union_empty _

theorem namesOfAll_mono {first second : List UnitSystem} (h : first ⊆ second) :
    namesOfAll first ⊆ namesOfAll second := by
  intro name hname
  simp only [namesOfAll, List.mem_toFinset, List.mem_flatMap] at hname ⊢
  obtain ⟨system, hsystem, hmem⟩ := hname
  exact ⟨system, h hsystem, hmem⟩

namespace Resolver

variable {r after : Resolver} {text : String} {file : UnitSystemFile} {files : List UnitSystemFile}

/-! ### One layer -/

theorem loaded_eq_ok_iff {work : Loading Unit} : work.loaded r = .ok after ↔ work.perform r = (.ok (), after) := by
  rw [Loading.loaded]
  rcases work.perform r with ⟨f | u, left⟩ <;> simp

/-- A text is loaded if it is a file whose names fit. -/
theorem addText_eq_ok_iff : r.addText text = .ok after ↔
    ∃ file, UnitSystemFile.ofText text = .ok file ∧ ¬ r.Overfull file.units ∧ after = r.extend file := by
  rw [addText, loaded_eq_ok_iff]
  cases h : UnitSystemFile.ofText text with
  | error fault => simp [perform_loadText_of_error h]
  | ok file =>
    by_cases ho : r.Overfull file.units
    · simp [perform_loadText_of_overfull h ho, ho]
    · simp [perform_loadText_of_not_overfull h ho, ho, eq_comm]

theorem not_overfull_iff : ¬ r.Overfull file.units ↔ (r.extend file).system.size ≤ r.limits.systemEntries := by
  rw [Overfull, joinedSize, ← NameMap.size_merge]
  exact Nat.not_lt

/-! ### All layers -/

/-- The resolver with some files over its own definitions and wordings, one after the other. -/
def extendAll (r : Resolver) (files : List UnitSystemFile) : Resolver :=
  files.foldl extend r

theorem get?_extendAll (r : Resolver) (files : List UnitSystemFile) (name : String) :
    (r.extendAll files).system.get? name = lastGiven (·.get? name) (r.system :: files.map (·.units)) := by
  induction files generalizing r with
  | nil => simp [extendAll]
  | cons file files ih =>
    have hmerge : (r.extend file).system.get? name = (file.units.get? name).or (r.system.get? name) :=
      NameMap.get?_merge r.system file.units name
    rw [extendAll, List.foldl_cons, ← extendAll, ih, lastGiven_cons, hmerge]
    simp [Option.or_assoc]

theorem override_extendAll (r : Resolver) (files : List UnitSystemFile) (id : MessageId) :
    (r.extendAll files).messages.override id = lastGiven (·.override id) (r.messages :: files.map (·.messages)) := by
  induction files generalizing r with
  | nil => simp [extendAll]
  | cons file files ih =>
    have hmerge : (r.extend file).messages.override id = (file.messages.override id).or (r.messages.override id) :=
      MessageCatalog.override_merge r.messages file.messages id
    rw [extendAll, List.foldl_cons, ← extendAll, ih, lastGiven_cons, hmerge]
    simp [Option.or_assoc]

theorem limits_extendAll (r : Resolver) (files : List UnitSystemFile) : (r.extendAll files).limits = r.limits := by
  induction files generalizing r with
  | nil => rfl
  | cons file files ih => exact ih (r.extend file)

theorem namesOfAll_extend (r : Resolver) (file : UnitSystemFile) (systems : List UnitSystem) :
    namesOfAll ((r.extend file).system :: systems) = namesOfAll (r.system :: file.units :: systems) := by
  have hkeys : (r.extend file).system.keys = r.system.keys ∪ file.units.keys := NameMap.keys_merge r.system file.units
  rw [namesOfAll_cons, namesOfAll_cons, namesOfAll_cons, hkeys, Finset.union_assoc]

/-- What a resolver holds after some files were laid over `r`: of each name and each wording the last one that is given,
and no other names. -/
structure Holds (r : Resolver) (files : List UnitSystemFile) (s : Resolver) : Prop where
  defined : ∀ name, s.system.get? name = lastGiven (·.get? name) (r.system :: files.map (·.units))
  worded : ∀ id, s.messages.override id = lastGiven (·.override id) (r.messages :: files.map (·.messages))
  size : s.system.size = (namesOfAll (r.system :: files.map (·.units))).card
  limits : s.limits = r.limits

theorem size_extendAll (r : Resolver) (files : List UnitSystemFile) :
    (r.extendAll files).system.size = (namesOfAll (r.system :: files.map (·.units))).card := by
  induction files generalizing r with
  | nil => rw [List.map_nil, namesOfAll_singleton, NameMap.card_keys, extendAll, List.foldl_nil]
  | cons file files ih =>
    rw [List.map_cons, ← namesOfAll_extend, ← ih (r.extend file), extendAll, List.foldl_cons, extendAll]

theorem holds_extendAll (r : Resolver) (files : List UnitSystemFile) : r.Holds files (r.extendAll files) :=
  ⟨get?_extendAll r files, override_extendAll r files, size_extendAll r files, limits_extendAll r files⟩

end Resolver
end Dimensional
