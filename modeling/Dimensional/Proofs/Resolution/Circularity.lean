import Dimensional.Proofs.Resolution.Cycles
import Dimensional.Proofs.UnitSystem.Blocked

/-!
# Validation and evaluation agree on cycles

Validation counts dependencies over the whole graph, evaluation searches it from a few names. They agree
(`circularity_agrees`): a cycle is reported only below a cyclic unit, and where no definition refers to the empty name,
an expression has problems exactly if one of its names is a cyclic unit.
-/

namespace Dimensional

open Relation (ReflTransGen TransGen)

namespace UnitSystem

variable {system : UnitSystem} {n m : String}

/-- A name that leads to a cycle of dependencies is a cyclic unit. -/
theorem mem_cyclicUnits_of_reaches (hr : system.Reaches n m) (hc : system.Cyclic m) :
    n ∈ system.validate.cyclicUnits :=
  mem_cyclicUnits_iff.mpr ⟨m, ReflTransGen.mono (fun _ _ hd => hd.2) _ _ hr, TransGen.mono (fun _ _ hd => hd.2) _ _ hc⟩

/-- Where nothing refers to the empty name, a cyclic unit leads to a cycle of dependencies. -/
theorem exists_cyclic_of_mem_cyclicUnits (he : ∀ k, ¬ system.Refers k "") (hn : n ∈ system.validate.cyclicUnits) :
    ∃ m, system.Reaches n m ∧ system.Cyclic m := by
  obtain ⟨m, hr, hc⟩ := mem_cyclicUnits_iff.mp hn
  have hsub : ∀ a b, system.Refers a b → system.DependsOn a b := fun a b hab => ⟨fun hb => he a (hb ▸ hab), hab⟩
  exact ⟨m, ReflTransGen.mono hsub _ _ hr, TransGen.mono hsub _ _ hc⟩

end UnitSystem

namespace Evaluation

open UnitSystem

variable {system : UnitSystem} {e : Expression}

/-- A cycle is reported only where a term is a cyclic unit. -/
theorem exists_mem_cyclicUnits_of_cycleUnit? {p : Problem} {u : String} (hp : p ∈ (of system e).problems)
    (hu : p.cycleUnit? = some u) : ∃ t ∈ e, t.name ∈ system.validate.cyclicUnits := by
  have h := surveyed_after system e
  obtain ⟨t, ⟨before, after, rfl, hreach, -⟩, -⟩ := h.anchored p hp u hu
  exact ⟨t, by simp, mem_cyclicUnits_of_reaches hreach ((h.reported.arises p hp).cyclic hu)⟩

/-- Below a term that leads to a cycle, a cycle is reported. -/
theorem problems_ne_nil_of_reaches {t : Term} {m : String} (ht : t ∈ e) (hr : system.Reaches t.name m)
    (hc : system.Cyclic m) : (of system e).problems ≠ [] := by
  have h := surveyed_after system e
  have hC : system.IsComponent {k | system.Connected m k} := ⟨m, rfl⟩
  have hm : m ∈ {k | system.Connected m k} := ⟨.refl, .refl⟩
  obtain ⟨u, -, hu⟩ := h.exists_mem_cyclic hC ⟨m, hm, hc⟩ ⟨t, ht, m, hm, hr⟩
  obtain ⟨p, hp, -⟩ := h.mem_cyclic_iff.mp hu
  exact List.ne_nil_of_mem hp

/-- **Validation and evaluation agree on cycles.** -/
theorem circularity_agrees (system : UnitSystem) (e : Expression) :
    ((∃ p ∈ (of system e).problems, p.id = .circularReferences) →
      ∃ t ∈ e, t.name ∈ system.validate.cyclicUnits) ∧
    ((∀ d ∈ system.entries, "" ∉ d.2.references) →
      ((of system e).problems ≠ [] ↔ ∃ t ∈ e, t.name ∈ system.validate.cyclicUnits)) := by
  have h := surveyed_after system e
  constructor
  · rintro ⟨p, hp, hid⟩
    have harises := h.reported.arises p hp
    cases harises with
    | cycle hpath => exact exists_mem_cyclicUnits_of_cycleUnit? hp rfl
    | malformed he => cases hid
  · intro hempty
    have he : ∀ k, ¬ system.Refers k "" := by
      intro k hk
      obtain ⟨d, hd, hr⟩ := refers_iff.mp hk
      exact hempty _ hd hr
    constructor
    · intro hne
      obtain ⟨p, hp⟩ := List.exists_mem_of_ne_nil _ hne
      cases h.reported.arises p hp with
      | cycle hpath => exact exists_mem_cyclicUnits_of_cycleUnit? hp rfl
      | malformed hk => exact absurd hk (he _)
    · rintro ⟨t, ht, hcyc⟩
      obtain ⟨m, hr, hc⟩ := exists_cyclic_of_mem_cyclicUnits he hcyc
      exact problems_ne_nil_of_reaches ht hr hc

end Evaluation
end Dimensional
