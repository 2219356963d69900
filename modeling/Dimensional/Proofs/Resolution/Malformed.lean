import Dimensional.Proofs.Expression.Power
import Dimensional.Proofs.Resolution.Circularity
import Dimensional.Proofs.Resolution.Place
import Dimensional.Proofs.Resolution.Substitution

/-!
# Malformed definitions

A definition that refers to the empty name is malformed. Validation does not ask for that: it looks for cycles alone.
So a valid unit system resolves a source without problems exactly if no definition that is reached is malformed
(`valid_resolves`).

A reference to the empty name is reported when it is met. While nothing is reported, no folded reference and no
reference of a finished name is empty (`Spotless`), and all that the terms lead to is finished in the end.
-/

namespace Dimensional

namespace Expansion

open Relation (ReflTransGen)

abbrev Named : Folding := Folding.All (· ≠ "")

/-- No empty name was met: not in the frames, and not in a finished definition. -/
structure Spotless (system : UnitSystem) (x : Expansion ()) : Prop where
  stack : Stack system Named none x.frames
  finished : ∀ n, x.resolved.contains n → ¬ system.Refers n ""

variable {system : UnitSystem} {span : Span} {x y : Expansion ()} {f : Frame} {n : String}

theorem Spotless.initial (system : UnitSystem) : Spotless system .initial :=
  ⟨trivial, fun _ hn => absurd hn (by simp [Expansion.initial, NameMap.contains])⟩

theorem not_refers_of_stands (hf : f.Stands system Named none) (hp : f.pending = []) :
    ¬ system.Refers f.name "" := by
  intro hr
  obtain ⟨r, hmem, hname⟩ := List.mem_map.mp hr
  exact hf.folds hp r hmem hname

theorem Spotless.finished_insert (h : Spotless system x) (hf : f.Stands system Named none) (hp : f.pending = [])
    (v : Dimension) : ∀ n, (x.resolved.insert f.name v).contains n → ¬ system.Refers n "" := by
  intro n hn
  rcases (NameMap.contains_insert _ _ _ _).mp hn with rfl | hn
  · exact not_refers_of_stands hf hp
  · exact h.finished n hn

theorem Move.problems_eq_nil (hm : Move system span x y) (hy : y.problems = []) : x.problems = [] := by
  have hsub := hm.grows.problems
  rwa [hy, List.subset_nil] at hsub

/-- A move meets no empty name, or reports it. -/
theorem Spotless.move (h : Spotless system x) (hm : Move system span x y) (hy : y.problems = []) :
    Spotless system y := by
  cases hm with
  | @leave f g rest hx hp =>
    obtain ⟨hf, hrest⟩ := hx ▸ h.stack
    -- the definition that is left is the current reference of the one below
    have hname : f.name ≠ "" := fun hn => hrest.1.named (congrArg some hn)
    have hrest' := hrest.absorb (d := f.folded) fun done hd => hd.append_singleton _ hname
    exact ⟨hrest', h.finished_insert hf hp _⟩
  | @descend f rest n e more hx hp hn hf =>
    obtain ⟨hstands, hrest⟩ := hx ▸ h.stack
    have hadv := hstands.advance hp hn
    exact ⟨⟨.start hf.compound fun r hr => absurd hr List.not_mem_nil, hadv, hrest⟩, h.finished⟩
  | @settle f rest n e more d c ps hx hp hs =>
    cases hs with
    | empty => exact absurd hy (by simp)
    | closing hn hc hmem => exact absurd hy (by simp)
    | known hn hk =>
      have hstack := (hx ▸ h.stack).settle (d := d) hp fun done hd => hd.append_singleton _ hn
      exact ⟨hstack, h.finished⟩

/-- The moves of a run add problems and take none back, so the last state tells about all of them. -/
theorem Spotless.moves (h : x.problems = [] → Spotless system x) (hm : ReflTransGen (Move system span) x y) :
    y.problems = [] → Spotless system y := by
  induction hm with
  | refl => exact h
  | tail _ hlast ih =>
    intro hy
    exact (ih (hlast.problems_eq_nil hy)).move hlast hy

theorem Spotless.resolveName (h : x.problems = [] → Spotless system x) (hx : x.Idle) (span : Span)
    (n : String) (hy : (x.resolveName system span n).2.problems = []) :
    Spotless system (x.resolveName system span n).2 := by
  rcases resolveName_cases hx system span n with ⟨d, hk, he⟩ | ⟨hf, y, f, hm, hyf, rfl, hp, he⟩ <;> rw [he] at hy ⊢
  · exact h hy
  · have hstart : (x.started system f.name).problems = [] → Spotless system (x.started system f.name) := by
      intro hx
      exact ⟨⟨.start hf.compound fun r hr => absurd hr List.not_mem_nil, trivial⟩, (h hx).finished⟩
    have hend := Spotless.moves hstart hm hy
    obtain ⟨hstands, -⟩ := hyf ▸ hend.stack
    exact ⟨trivial, hend.finished_insert hstands hp _⟩

end Expansion

namespace Evaluation

open UnitSystem

variable {system : UnitSystem} {e : Expression}

theorem spotless_after (h : (after system e).2.problems = []) : (after system e).2.Spotless system := by
  induction e using List.reverseRecOn with
  | nil => exact .initial system
  | append_singleton e t ih =>
    rw [after_append_singleton] at h ⊢
    exact Expansion.Spotless.resolveName ih (surveyed_after system e).idle _ _ h

/-- **Nothing is wrong exactly if all names are regular.** -/
theorem problems_eq_nil_iff : (of system e).problems = [] ↔ ∀ t ∈ e, system.Regular t.name := by
  constructor
  · intro h t ht m hr
    refine ⟨fun hc => problems_ne_nil_of_reaches ht hr hc h, ?_⟩
    rcases (surveyed_after system e).finished ht hr with hb | hfin
    · exact not_refers_of_base hb
    · exact (spotless_after h).finished m hfin
  · intro h
    exact (substitutes_after h).2.1.problems_eq

end Evaluation

namespace Resolution

open UnitSystem

variable {system : UnitSystem} {source : String}

/-- A source that is parsed without problems resolves without problems exactly if all its names are regular. -/
theorem diagnostics_eq_nil_iff (messages : MessageCatalog) (hs : (Parse.ofSource source).problems = []) :
    (of messages system source).diagnostics = [] ↔
      ∀ t ∈ (Parse.ofSource source).expression, system.Regular t.name := by
  rw [← Evaluation.problems_eq_nil_iff]
  simp [of_eq, hs]

/-- **Valid unit systems resolve sources without problems, malformed definitions apart.** In a valid unit system, a
source that is parsed without problems resolves without problems exactly if no definition that its names lead to refers
to the empty name; every problem is such a definition. -/
theorem valid_resolves (messages : MessageCatalog) (hv : system.validate.isValid = true)
    (hs : (Parse.ofSource source).problems = []) :
    ((of messages system source).diagnostics = [] ↔
      ∀ t ∈ (Parse.ofSource source).expression, ∀ m, system.Reaches t.name m → ¬ system.Refers m "") ∧
    ∀ d ∈ (of messages system source).diagnostics, d.id = .internalError := by
  have hacyclic : ∀ n, ¬ system.Cyclic n := fun n hn =>
    isValid_iff.mp hv n (Relation.TransGen.mono (fun _ _ hd => hd.2) _ _ hn)
  constructor
  · rw [diagnostics_eq_nil_iff messages hs]
    constructor
    · intro h t ht m hr
      exact (h t ht m hr).2
    · intro h t ht m hr
      exact ⟨hacyclic m, h t ht m hr⟩
  · intro d hd
    rw [of_eq, hs, List.nil_append] at hd
    obtain ⟨p, hp, rfl⟩ := List.mem_map.mp hd
    have harises := (Evaluation.surveyed_after system _).reported.arises p hp
    have hno : ∀ u, p.cycleUnit? ≠ some u := fun u hu => hacyclic u (harises.cyclic hu)
    show p.id = .internalError
    cases harises with
    | malformed hr => rfl
    | cycle hpath => exact absurd rfl (hno _)

/-- The malformed definition is not among those that `turn` leads to. -/
theorem valid_resolves_turn :
    let system : UnitSystem := NameMap.ofList [("bad", .synonym ""), ("turn", .product [("rad", 2)])]
    system.validate.isValid = true ∧ (Parse.ofSource "turn").problems = [] ∧
      ((of .english system "turn").diagnostics = [] ↔
        ∀ t ∈ (Parse.ofSource "turn").expression, ∀ m, system.Reaches t.name m → ¬ system.Refers m "") ∧
      ∀ d ∈ (of .english system "turn").diagnostics, d.id = .internalError := by
  intro system
  have hvalid : system.validate.isValid = true :=
    isValid_of_rank (fun n => if n = "bad" ∨ n = "turn" then 1 else 0) (by decide)
  have hname : IsName "turn" := .of_all (by decide) (by decide)
  have hparse : (Parse.ofSource "turn").problems = [] := by rw [Parse.ofSource_name hname]
  exact ⟨hvalid, hparse, valid_resolves .english hvalid hparse⟩

/-- A synonym of the empty name is valid, and does not resolve without problems. -/
theorem malformed_synonym_valid :
    let system : UnitSystem := NameMap.ofList [("bad", .synonym "")]
    system.validate.isValid = true ∧ (Parse.ofSource "bad").problems = [] ∧
      (of .english system "bad").diagnostics ≠ [] := by
  intro system
  have hvalid : system.validate.isValid = true :=
    isValid_of_rank (fun n => if n = "bad" then 1 else 0) (by decide)
  have hname : IsName "bad" := .of_all (by decide) (by decide)
  have hparse := Parse.ofSource_name hname
  have hclean : (Parse.ofSource "bad").problems = [] := by rw [hparse]
  refine ⟨hvalid, hclean, fun hnil => ?_⟩
  rw [diagnostics_eq_nil_iff .english hclean, hparse] at hnil
  have hrefers : system.Refers "bad" "" := refers_iff.mpr ⟨.synonym "", by decide, by decide⟩
  exact (hnil _ List.mem_cons_self "bad" .refl).2 hrefers

end Resolution
end Dimensional
