import Dimensional.Proofs.NameMap.Merging
import Dimensional.Resolver

/-!
# Loading

Loading definitions, or the text of a unit system file, either adds all that is given to the resolver or leaves it as it
was. `Extends` says what a resolver holds after something was loaded, and `Overfull` when loading is refused because the
loaded names and the new ones together are too many.

`loadText_cases` is the form in which a run of loads uses this. The main statement is `load_atomic`.
-/

namespace Dimensional

/-- The second catalog answers first. -/
theorem MessageCatalog.override_merge (c other : MessageCatalog) (id : MessageId) :
    (c.merge other).override id = (other.override id).or (c.override id) := by
  show (other.override id <|> c.override id) = _
  cases other.override id <;> rfl

/-! ### The definitions in a text -/

namespace UnitSystemFile

variable {text : String}

/-- The definitions that a text gives if it is a unit system file. -/
def unitsOf? (text : String) : Option UnitSystem :=
  (ofText text).toOption.map (·.units)

theorem unitsOf?_eq_some_iff {units : UnitSystem} :
    unitsOf? text = some units ↔ ∃ file, ofText text = .ok file ∧ file.units = units := by
  cases h : ofText text <;> simp [unitsOf?, h, Except.toOption]

theorem unitsOf?_eq_none_iff : unitsOf? text = none ↔ ∃ fault, ofText text = .error fault := by
  cases h : ofText text <;> simp [unitsOf?, h, Except.toOption]

end UnitSystemFile

namespace Resolver

variable {r : Resolver} {units : UnitSystem} {file : UnitSystemFile} {text : String}

/-! ### What may be loaded -/

/-- The number of names that the loaded definitions and some others have together. -/
def joinedSize (r : Resolver) (units : UnitSystem) : Nat := (r.system.keys ∪ units.keys).card

/-- Some definitions are too many for the resolver. -/
def Overfull (r : Resolver) (units : UnitSystem) : Prop := r.limits.systemEntries < r.joinedSize units

instance (r : Resolver) (units : UnitSystem) : Decidable (r.Overfull units) := Nat.decLt _ _

def excess (r : Resolver) (units : UnitSystem) : Failure :=
  .limitExceeded (.systemEntries r.limits.systemEntries (r.joinedSize units))

/-- A resolver after definitions and wordings were loaded into `r`. -/
structure Extends (r : Resolver) (units : UnitSystem) (messages : MessageCatalog) (loaded : Resolver) : Prop where
  defined : ∀ name d, units.get? name = some d → loaded.system.get? name = some d
  undefined : ∀ name, units.get? name = none → loaded.system.get? name = r.system.get? name
  size : loaded.system.size = r.joinedSize units
  size_le : loaded.system.size ≤ r.limits.systemEntries
  worded : ∀ id text, messages.override id = some text → loaded.messages.override id = some text
  unworded : ∀ id, messages.override id = none → loaded.messages.override id = r.messages.override id
  limits : loaded.limits = r.limits

theorem entriesWith_eq (r : Resolver) (units : UnitSystem) : r.entriesWith units = r.joinedSize units :=
  NameMap.size_add_length_new r.system units

/-! ### Outcomes -/

/-- The resolver with the definitions and wordings of a file over its own, whatever their number. -/
def extend (r : Resolver) (file : UnitSystemFile) : Resolver where
  system := r.system.merge file.units
  messages := r.messages.merge file.messages
  limits := r.limits

theorem extends_extend (h : ¬ r.Overfull file.units) : r.Extends file.units file.messages (r.extend file) where
  defined name d hd := by
    show (r.system.merge file.units).get? name = some d
    rw [NameMap.get?_merge, hd, Option.some_or]
  undefined name hd := by
    show (r.system.merge file.units).get? name = _
    rw [NameMap.get?_merge, hd, Option.none_or]
  size := NameMap.size_merge r.system file.units
  size_le := by
    have hle : r.joinedSize file.units ≤ r.limits.systemEntries := Nat.not_lt.mp h
    exact Nat.le_trans (Nat.le_of_eq (NameMap.size_merge r.system file.units)) hle
  worded id text ht := by
    show (r.messages.merge file.messages).override id = some text
    rw [MessageCatalog.override_merge, ht, Option.some_or]
  unworded id ht := by
    show (r.messages.merge file.messages).override id = _
    rw [MessageCatalog.override_merge, ht, Option.none_or]
  limits := rfl

/-- What loading of definitions is for a resolver. -/
theorem perform_loadSystem (r : Resolver) (units : UnitSystem) :
    (loadSystem units).perform r =
      (if r.limits.systemEntries < r.entriesWith units then
        throw (.limitExceeded (.systemEntries r.limits.systemEntries (r.entriesWith units)))
      else set { r with system := r.system.merge units } : Loading Unit).perform r := rfl

theorem perform_loadSystem_of_overfull (h : r.Overfull units) :
    (loadSystem units).perform r = (.error (r.excess units), r) := by
  have hlt : r.limits.systemEntries < r.entriesWith units := by rwa [entriesWith_eq]
  rw [perform_loadSystem, if_pos hlt, excess, ← entriesWith_eq]
  rfl

theorem perform_loadSystem_of_not_overfull (h : ¬ r.Overfull units) :
    (loadSystem units).perform r = (.ok (), { r with system := r.system.merge units }) := by
  have hlt : ¬ r.limits.systemEntries < r.entriesWith units := by rwa [entriesWith_eq]
  rw [perform_loadSystem, if_neg hlt]
  rfl

theorem perform_loadText_of_error {fault : Json.Fault} (h : UnitSystemFile.ofText text = .error fault) :
    (loadText text).perform r = (.error (.invalidUnitSystem fault), r) := by
  rw [loadText, h]
  rfl

/-- Work after other work is done on what that left, unless it failed. -/
theorem Loading.perform_bind (work : Loading Unit) (next : Unit → Loading Unit) (r : Resolver) :
    (work >>= next).perform r =
      match work.perform r with
      | (.error f, after) => (.error f, after)
      | (.ok u, after) => (next u).perform after := by
  unfold Loading.perform
  simp only [ExceptT.run_bind, StateT.run_bind]
  obtain ⟨outcome, after⟩ := StateT.run (ExceptT.run work) r
  cases outcome <;> rfl

theorem perform_loadText_of_ok (h : UnitSystemFile.ofText text = .ok file) :
    (loadText text).perform r =
      (loadSystem file.units >>= fun _ => loadMessages file.messages : Loading Unit).perform r := by
  rw [loadText, h]

theorem perform_loadText_of_overfull (h : UnitSystemFile.ofText text = .ok file) (ho : r.Overfull file.units) :
    (loadText text).perform r = (.error (r.excess file.units), r) := by
  rw [perform_loadText_of_ok h, Loading.perform_bind, perform_loadSystem_of_overfull ho]

theorem perform_loadText_of_not_overfull (h : UnitSystemFile.ofText text = .ok file) (ho : ¬ r.Overfull file.units) :
    (loadText text).perform r = (.ok (), r.extend file) := by
  rw [perform_loadText_of_ok h, Loading.perform_bind, perform_loadSystem_of_not_overfull ho]
  rfl

/-- **What loading a text can do**: it fails and leaves the resolver as it is, or the text is a file and all of it is
loaded. -/
theorem loadText_cases (r : Resolver) (text : String) :
    (∃ f, (loadText text).perform r = (.error f, r)) ∨
      ∃ file, UnitSystemFile.ofText text = .ok file ∧ ¬ r.Overfull file.units ∧
        (loadText text).perform r = (.ok (), r.extend file) := by
  cases h : UnitSystemFile.ofText text with
  | error fault => exact .inl ⟨_, perform_loadText_of_error h⟩
  | ok file =>
    by_cases ho : r.Overfull file.units
    · exact .inl ⟨_, perform_loadText_of_overfull h ho⟩
    · exact .inr ⟨file, rfl, ho, perform_loadText_of_not_overfull h ho⟩

/-! ### Atomicity -/

/-- A text cannot be loaded: it is no unit system file, or its definitions are too many. -/
def Refuses (r : Resolver) (text : String) (f : Failure) : Prop :=
  (∃ fault, UnitSystemFile.ofText text = .error fault ∧ f = .invalidUnitSystem fault) ∨
    ∃ file, UnitSystemFile.ofText text = .ok file ∧ r.Overfull file.units ∧ f = r.excess file.units

theorem Extends.not_overfull {messages : MessageCatalog} {loaded : Resolver} (h : r.Extends units messages loaded) :
    ¬ r.Overfull units := by
  rw [Overfull, ← h.size]
  exact Nat.not_lt.mpr h.size_le

/-- What a resolver holds after loading is determined. -/
theorem Extends.unique {messages : MessageCatalog} {r₁ r₂ : Resolver} (h₁ : r.Extends units messages r₁)
    (h₂ : r.Extends units messages r₂) : r₁ = r₂ := by
  have hsystem : r₁.system = r₂.system := by
    refine NameMap.ext_get? fun name => ?_
    cases hd : units.get? name with
    | none => rw [h₁.undefined name hd, h₂.undefined name hd]
    | some d => rw [h₁.defined name d hd, h₂.defined name d hd]
  have hmessages : r₁.messages = r₂.messages := by
    refine MessageCatalog.ext_override fun id => ?_
    cases ht : messages.override id with
    | none => rw [h₁.unworded id ht, h₂.unworded id ht]
    | some text => rw [h₁.worded id text ht, h₂.worded id text ht]
  have hlimits : r₁.limits = r₂.limits := h₁.limits.trans h₂.limits.symm
  cases r₁
  cases r₂
  cases hsystem
  cases hmessages
  cases hlimits
  rfl

theorem extend_eq_iff {loaded : Resolver} (h : ¬ r.Overfull file.units) :
    r.extend file = loaded ↔ r.Extends file.units file.messages loaded := by
  constructor
  · rintro rfl
    exact extends_extend h
  · exact (extends_extend h).unique

/-- The definitions alone are loaded like a file without wordings. -/
theorem extend_english (r : Resolver) (units : UnitSystem) :
    r.extend ⟨units, .english⟩ = { r with system := r.system.merge units } := by
  have hmessages : r.messages.merge .english = r.messages := MessageCatalog.ext_override fun _ => rfl
  rw [extend, hmessages]

variable {f : Failure} {after : Resolver}

theorem loadSystem_error_iff : (loadSystem units).perform r = (.error f, after) ↔
    r.Overfull units ∧ f = r.excess units ∧ after = r := by
  by_cases ho : r.Overfull units
  · simp [perform_loadSystem_of_overfull ho, ho, eq_comm]
  · simp [perform_loadSystem_of_not_overfull ho, ho]

theorem loadSystem_ok_iff : (loadSystem units).perform r = (.ok (), after) ↔ r.Extends units .english after := by
  by_cases ho : r.Overfull units
  · rw [perform_loadSystem_of_overfull ho]
    simp only [Prod.mk.injEq, reduceCtorEq, false_and, false_iff]
    exact fun h => h.not_overfull ho
  · have hiff : r.extend ⟨units, .english⟩ = after ↔ r.Extends units .english after := extend_eq_iff ho
    rw [perform_loadSystem_of_not_overfull ho, ← extend_english]
    simp only [Prod.mk.injEq, true_and]
    exact hiff

theorem loadText_error_iff : (loadText text).perform r = (.error f, after) ↔ r.Refuses text f ∧ after = r := by
  cases h : UnitSystemFile.ofText text with
  | error fault => simp [Refuses, perform_loadText_of_error h, h, eq_comm]
  | ok file =>
    by_cases ho : r.Overfull file.units
    · simp [Refuses, perform_loadText_of_overfull h ho, h, ho, eq_comm]
    · simp [Refuses, perform_loadText_of_not_overfull h ho, h, ho]

theorem loadText_ok_iff : (loadText text).perform r = (.ok (), after) ↔
    ∃ file, UnitSystemFile.ofText text = .ok file ∧ r.Extends file.units file.messages after := by
  cases h : UnitSystemFile.ofText text with
  | error fault => simp [perform_loadText_of_error h]
  | ok file =>
    by_cases ho : r.Overfull file.units
    · have hnone : ¬ r.Extends file.units file.messages after := fun he => he.not_overfull ho
      simp [perform_loadText_of_overfull h ho, hnone]
    · simp [perform_loadText_of_not_overfull h ho, extend_eq_iff ho]

/-- **Loading is atomic and keeps the limit.** Definitions fail to be loaded exactly when they are too many, a text
exactly when it is no unit system file or its definitions are too many. The resolver is then as it was; otherwise it
holds its own definitions and wordings with the loaded ones over them. -/
theorem load_atomic (r : Resolver) :
    (∀ units f after, (loadSystem units).perform r = (.error f, after) ↔
      r.Overfull units ∧ f = r.excess units ∧ after = r) ∧
    (∀ units after, (loadSystem units).perform r = (.ok (), after) ↔ r.Extends units .english after) ∧
    (∀ text f after, (loadText text).perform r = (.error f, after) ↔ r.Refuses text f ∧ after = r) ∧
    ∀ text after, (loadText text).perform r = (.ok (), after) ↔
      ∃ file, UnitSystemFile.ofText text = .ok file ∧ r.Extends file.units file.messages after :=
  ⟨fun _ _ _ => loadSystem_error_iff, fun _ _ => loadSystem_ok_iff, fun _ _ _ => loadText_error_iff,
    fun _ _ => loadText_ok_iff⟩

/-- A file that says anew what a name is, one with a name too many, and one that breaks off. -/
theorem load_atomic_renamed :
    let r : Resolver := ⟨.ofList [("m", .base), ("s", .base)], .english, ⟨1024, 3⟩⟩
    (∃ after, (loadText "\x7b\"units\": \x7b\"m\": \"s\", \"kg\": null\x7d\x7d").perform r = (.ok (), after) ∧
      after.system.get? "m" = some (.synonym "s") ∧ after.system.get? "s" = some .base ∧ after.system.size = 3) ∧
      (loadText "\x7b\"units\": \x7b\"m\": \"s\", \"A\": null, \"K\": null\x7d\x7d").perform r =
        (.error (.limitExceeded (.systemEntries 3 4)), r) ∧
      ∃ fault, (loadText "\x7b\"units\": \x7b\"m\": \"s\"\x7d").perform r = (.error (.invalidUnitSystem fault), r) := by
  intro r
  obtain ⟨-, -, hrefused, hloaded⟩ := load_atomic r
  have hfits : UnitSystemFile.unitsOf? "\x7b\"units\": \x7b\"m\": \"s\", \"kg\": null\x7d\x7d" =
      some (.ofList [("m", .synonym "s"), ("kg", .base)]) := by
    decide +kernel
  have hmany : UnitSystemFile.unitsOf? "\x7b\"units\": \x7b\"m\": \"s\", \"A\": null, \"K\": null\x7d\x7d" =
      some (.ofList [("m", .synonym "s"), ("A", .base), ("K", .base)]) := by
    decide +kernel
  have hbroken : UnitSystemFile.unitsOf? "\x7b\"units\": \x7b\"m\": \"s\"\x7d" = none := by decide +kernel
  refine ⟨?_, ?_, ?_⟩
  · obtain ⟨file, hfile, hunits⟩ := UnitSystemFile.unitsOf?_eq_some_iff.mp hfits
    have hfit : ¬ r.Overfull file.units := by
      rw [hunits]
      decide +kernel
    have hextends : r.Extends file.units file.messages (r.extend file) := extends_extend hfit
    refine ⟨r.extend file, (hloaded _ _).mpr ⟨file, hfile, hextends⟩, ?_, ?_, ?_⟩
    · exact hextends.defined "m" _ (by rw [hunits]; decide)
    · rw [hextends.undefined "s" (by rw [hunits]; decide)]
      decide
    · rw [hextends.size, hunits]
      decide +kernel
  · obtain ⟨file, hfile, hunits⟩ := UnitSystemFile.unitsOf?_eq_some_iff.mp hmany
    refine (hrefused _ _ _).mpr ⟨.inr ⟨file, hfile, ?_, ?_⟩, rfl⟩
    · rw [hunits]
      decide +kernel
    · rw [hunits]
      decide +kernel
  · obtain ⟨fault, hfault⟩ := UnitSystemFile.unitsOf?_eq_none_iff.mp hbroken
    exact ⟨fault, (hrefused _ _ _).mpr ⟨.inl ⟨fault, hfault, rfl⟩, rfl⟩⟩

end Resolver
end Dimensional
