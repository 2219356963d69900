import Dimensional.Proofs.Dimension.Exponents
import Dimensional.Proofs.Resolution.Stack

/-!
# Expansion as substitution

`UnitSystem.Denotes` puts definitions in the place of names, again and again, with nothing remembered and nothing kept
on a stack. A name denotes one dimension at most (`Denotes.unique`). Where no name that is reached is on a cycle or
refers to the empty name, evaluating an expression gives the product that it denotes, and no problem
(`evaluation_eq_substitution`).

The invariant of the moves (`Substitutes`): the remembered dimensions and the products in the frames are those of
substitution, and nothing was reported.
-/

namespace Dimensional

/-! ### Substitution -/

/-- The product of powers from left to right, for dimensions `den` of the names. -/
def Dimension.productOf (den : String → Dimension) (powers : List (String × Exponent)) : Dimension :=
  powers.foldl (fun d p => d.mul ((den p.1).pow p.2)) .dimensionless

namespace Dimension

variable {den den' : String → Dimension} {powers : List (String × Exponent)}

theorem productOf_append_singleton (p : String × Exponent) :
    productOf den (powers ++ [p]) = (productOf den powers).mul ((den p.1).pow p.2) := by
  rw [productOf, List.foldl_append]
  rfl

theorem productOf_congr (h : ∀ p ∈ powers, den p.1 = den' p.1) : productOf den powers = productOf den' powers := by
  induction powers using List.reverseRecOn with
  | nil => rfl
  | append_singleton powers p ih =>
    have hp := h p (by simp)
    have hpowers := ih fun q hq => h q (List.mem_append_left _ hq)
    rw [productOf_append_singleton, productOf_append_singleton, hp, hpowers]

end Dimension

namespace UnitSystem

/-- The dimension of a name by substitution: a base unit is itself, a synonym is its target, and a product is the
product of its factors. -/
inductive Denotes (system : UnitSystem) : String → Dimension → Prop
  | base {n : String} (h : system.definition n = .base) : Denotes system n (.base n 1)
  | synonym {n target : String} {d : Dimension} (h : system.definition n = .synonym target)
      (ht : Denotes system target d) : Denotes system n d
  | product {n : String} {factors : List (String × Exponent)} (h : system.definition n = .product factors)
      (den : String → Dimension) (hden : ∀ p ∈ factors, Denotes system p.1 (den p.1)) :
      Denotes system n (.productOf den factors)

def DenotesProduct (system : UnitSystem) (powers : List (String × Exponent)) (d : Dimension) : Prop :=
  ∃ den : String → Dimension, (∀ p ∈ powers, system.Denotes p.1 (den p.1)) ∧ d = .productOf den powers

variable {system : UnitSystem} {n : String} {d d' : Dimension} {powers : List (String × Exponent)}

/-- **A name denotes one dimension at most.** -/
theorem Denotes.unique (h : system.Denotes n d) (h' : system.Denotes n d') : d = d' := by
  induction h generalizing d' with
  | base hb =>
    cases h' with
    | base => rfl
    | synonym hs => rw [hb] at hs; cases hs
    | product hf => rw [hb] at hf; cases hf
  | synonym hs ht ih =>
    cases h' with
    | base hb => rw [hs] at hb; cases hb
    | synonym hs' ht' =>
      rw [hs] at hs'
      cases hs'
      exact ih ht'
    | product hf => rw [hs] at hf; cases hf
  | product hf den hden ih =>
    cases h' with
    | base hb => rw [hf] at hb; cases hb
    | synonym hs => rw [hf] at hs; cases hs
    | product hf' den' hden' =>
      rw [hf] at hf'
      cases hf'
      exact Dimension.productOf_congr fun p hp => ih p hp (hden' p hp)

theorem denotesProduct_nil : system.DenotesProduct [] .dimensionless :=
  ⟨fun _ => .dimensionless, fun _ hp => absurd hp List.not_mem_nil, rfl⟩

theorem DenotesProduct.snoc {e : Exponent} (h : system.DenotesProduct powers d) (hn : system.Denotes n d') :
    system.DenotesProduct (powers ++ [(n, e)]) (d.mul (d'.pow e)) := by
  obtain ⟨den, hden, rfl⟩ := h
  -- a name that is met again keeps its dimension, so `n` can be set in `den`
  let den' : String → Dimension := fun m => if m = n then d' else den m
  have hself : den' n = d' := if_pos rfl
  have hsame : ∀ p ∈ powers, den p.1 = den' p.1 := by
    intro p hp
    by_cases hm : p.1 = n
    · rw [hm, hself]
      exact (hm ▸ hden p hp).unique hn
    · exact (if_neg hm).symm
  refine ⟨den', ?_, ?_⟩
  · intro p hp
    rcases List.mem_append.mp hp with hp | hp
    · rw [← hsame p hp]
      exact hden p hp
    · rw [List.mem_singleton.mp hp, hself]
      exact hn
  · rw [Dimension.productOf_append_singleton, hself, Dimension.productOf_congr hsame]

/-- A synonym is the product of its target alone. -/
theorem Denotes.of_factors (h : system.definition n ≠ .base)
    (hf : system.DenotesProduct (system.definition n).factors d) : system.Denotes n d := by
  obtain ⟨den, hden, rfl⟩ := hf
  cases hd : system.definition n with
  | base => exact absurd hd h
  | synonym target =>
    rw [hd] at hden
    have htarget : Dimension.productOf den [(target, 1)] = den target := by
      show Dimension.dimensionless.mul ((den target).pow 1) = den target
      rw [Dimension.dimensionless_mul, Dimension.pow_one]
    show system.Denotes n (.productOf den [(target, 1)])
    rw [htarget]
    exact .synonym hd (hden (target, 1) (List.mem_singleton.mpr rfl))
  | product factors =>
    rw [hd] at hden
    exact .product hd den hden

theorem Denotes.eq_base (h : system.Denotes n d) (hb : system.definition n = .base) : d = .base n 1 :=
  h.unique (.base hb)

/-- A name that is no base unit denotes the product of the references of its definition. -/
theorem Denotes.factors (h : system.Denotes n d) (hb : system.definition n ≠ .base) :
    system.DenotesProduct (system.definition n).factors d := by
  cases h with
  | base hn => exact absurd hn hb
  | @synonym _ target _ hs ht =>
    rw [hs]
    refine ⟨fun _ => d, ?_, ?_⟩
    · intro p hp
      rw [List.mem_singleton.mp hp]
      exact ht
    · show d = Dimension.dimensionless.mul (d.pow 1)
      rw [Dimension.dimensionless_mul, Dimension.pow_one]
  | product hf den hden =>
    rw [hf]
    exact ⟨den, hden, rfl⟩

/-- What holds of base units and passes on from the references of a definition holds of every name that denotes a
dimension. -/
theorem Denotes.induct {P : String → Prop} (hbase : ∀ n, system.definition n = .base → P n)
    (hcompound : ∀ n d, system.Denotes n d → system.definition n ≠ .base →
      (∀ p ∈ (system.definition n).factors, P p.1) → P n) (h : system.Denotes n d) : P n := by
  induction h with
  | base hb => exact hbase _ hb
  | synonym hs ht ih =>
    refine hcompound _ _ (.synonym hs ht) (by simp [hs]) fun p hp => ?_
    rw [hs] at hp
    rw [List.mem_singleton.mp hp]
    exact ih
  | product hf den hden ih =>
    refine hcompound _ _ (.product hf den hden) (by simp [hf]) fun p hp => ?_
    rw [hf] at hp
    exact ih p hp

end UnitSystem

namespace Expansion

open UnitSystem

/-! ### The invariant -/

/-- All that an expansion holds is what substitution gives, for names that are regular, and nothing was reported. -/
structure Substitutes (system : UnitSystem) (x : Expansion ()) : Prop where
  stack : Stack system system.DenotesProduct none x.frames
  memory : ∀ n d, x.resolved.get? n = some d → system.Denotes n d
  regular : ∀ f ∈ x.frames, system.Regular f.name
  cyclic_eq : x.cyclic = []
  problems_eq : x.problems = []

variable {system : UnitSystem} {span : Span} {x y : Expansion ()} {n : String} {d : Dimension}

theorem Substitutes.initial (system : UnitSystem) : Substitutes system .initial :=
  ⟨trivial, fun _ _ h => absurd h nofun, fun _ hf => absurd hf List.not_mem_nil, rfl, rfl⟩

/-- What is known at once is what substitution gives. -/
theorem Substitutes.known (h : Substitutes system x) (hk : x.Known system n d) : system.Denotes n d := by
  cases hk with
  | reported hc => rw [h.cyclic_eq] at hc; cases hc
  | remembered hc hr => exact h.memory n d hr
  | base hb => exact .base hb

theorem Substitutes.memory_insert (h : Substitutes system x) {f : Frame} (hf : system.Denotes f.name f.folded) :
    ∀ n d, (x.resolved.insert f.name f.folded).get? n = some d → system.Denotes n d := by
  intro n d hn
  rw [NameMap.get?_insert] at hn
  split at hn
  · next heq => cases hn; rw [heq]; exact hf
  · exact h.memory n d hn

/-- A finished definition holds what substitution gives. -/
theorem denotes_of_stands {f : Frame} (h : f.Stands system system.DenotesProduct none) (hp : f.pending = []) :
    system.Denotes f.name f.folded :=
  .of_factors h.compound (h.folds hp)

theorem Substitutes.move (h : Substitutes system x) (hm : Move system span x y) : Substitutes system y := by
  have hregular : ∀ f ∈ y.frames, system.Regular f.name :=
    hm.forall_names h.stack h.regular fun _ _ hreg hd => hreg.of_reaches (.single hd)
  cases hm with
  | @leave f g rest hx hp =>
    obtain ⟨hf, hrest⟩ := hx ▸ h.stack
    have hsub := denotes_of_stands hf hp
    have hrest' := hrest.absorb (d := f.folded) fun done hd => hd.snoc hsub
    exact ⟨hrest', h.memory_insert hsub, hregular, h.cyclic_eq, h.problems_eq⟩
  | @settle f rest n e more d c ps hx hp hs =>
    have hstack := hx ▸ h.stack
    have hreg : system.Regular f.name := h.regular f (by simp [hx])
    have href := hstack.1.refers_of_pending hp
    -- nothing can be wrong with a reference of a regular name
    cases hs with
    | empty => exact absurd href (hreg _ .refl).2
    | closing hn hc hm =>
      have hcyc : system.Cyclic n := hstack.cyclic_of_pending hp hn (hx ▸ mem_chain.mp hm)
      exact absurd hcyc (hreg n (.single ⟨hn, href⟩)).1
    | known hn hk =>
      have hstack' := hstack.settle hp fun done hd => hd.snoc (h.known hk)
      exact ⟨hstack', h.memory, hregular, h.cyclic_eq, h.problems_eq⟩
  | @descend f rest n e more hx hp hn hf =>
    have hstack := hx ▸ h.stack
    have hadv := hstack.1.advance hp hn
    exact ⟨⟨.start hf.compound denotesProduct_nil, hadv, hstack.2⟩, h.memory, hregular, h.cyclic_eq, h.problems_eq⟩

theorem Substitutes.moves (h : Substitutes system x) (hm : Relation.ReflTransGen (Move system span) x y) :
    Substitutes system y := by
  induction hm with
  | refl => exact h
  | tail _ hlast ih => exact ih.move hlast

/-! ### Names and terms -/

/-- Resolving a regular name gives what substitution gives, and keeps the invariant. -/
theorem Substitutes.resolveName (h : Substitutes system x) (hx : x.Idle) (hn : system.Regular n) (span : Span) :
    system.Denotes n (x.resolveName system span n).1 ∧
      Substitutes system (x.resolveName system span n).2 ∧ (x.resolveName system span n).2.Idle := by
  have hidle := hx.resolveName system span n
  rcases resolveName_cases hx system span n with ⟨d, hk, he⟩ | ⟨hf, y, f, hy, hyf, rfl, hp, he⟩ <;>
    rw [he] at hidle ⊢
  · exact ⟨h.known hk, h, hidle⟩
  · have hstart : Substitutes system (x.started system f.name) := by
      refine ⟨⟨.start hf.compound denotesProduct_nil, trivial⟩, h.memory, ?_, h.cyclic_eq, h.problems_eq⟩
      intro k hk
      rw [List.mem_singleton.mp hk]
      exact hn
    have hend := hstart.moves hy
    obtain ⟨hstands, -⟩ := hyf ▸ hend.stack
    have hsub := denotes_of_stands hstands hp
    exact ⟨hsub, ⟨trivial, hend.memory_insert hsub, fun _ hk => absurd hk List.not_mem_nil, hend.cyclic_eq,
      hend.problems_eq⟩, hidle⟩

end Expansion

namespace Evaluation

variable {system : UnitSystem} {e : Expression}

theorem substitutes_after (h : ∀ t ∈ e, system.Regular t.name) :
    system.DenotesProduct (e.map Term.power) (after system e).1 ∧
      (after system e).2.Substitutes system ∧ (after system e).2.Idle := by
  induction e using List.reverseRecOn with
  | nil => exact ⟨UnitSystem.denotesProduct_nil, .initial system, .initial⟩
  | append_singleton e t ih =>
    obtain ⟨hunits, hsub, hidle⟩ := ih fun t ht => h t (List.mem_append_left _ ht)
    have hreg : system.Regular t.name := h t (by simp)
    obtain ⟨hname, hsub', hidle'⟩ := hsub.resolveName hidle hreg t.span
    rw [after_append_singleton, addTerm_eq, List.map_append]
    exact ⟨hunits.snoc hname, hsub', hidle'⟩

/-- **Expansion is substitution.** Where nothing that is reached is on a cycle or refers to the empty name, each term
denotes one dimension, and the expression is evaluated without problems, to the product of these from left to right. -/
theorem evaluation_eq_substitution (h : ∀ t ∈ e, system.Regular t.name) :
    (of system e).problems = [] ∧ ∃ den : String → Dimension,
      (∀ t ∈ e, ∀ d, system.Denotes t.name d ↔ d = den t.name) ∧
      (of system e).units = .productOf den (e.map Term.power) := by
  obtain ⟨⟨den, hden, hunits⟩, hsub, -⟩ := substitutes_after h
  refine ⟨hsub.problems_eq, den, fun t ht d => ?_, hunits⟩
  have hname : system.Denotes t.name (den t.name) := hden t.power (List.mem_map_of_mem ht)
  constructor
  · intro hd
    exact hd.unique hname
  · rintro rfl
    exact hname

/-- A pascal over newtons: `newton` is met in the first term, under a synonym, and again as the second term. -/
theorem evaluation_eq_substitution_mechanics :
    (∀ n, UnitSystem.mechanics.Regular n) ∧
      (of .mechanics [⟨"Pa", 2, ⟨0, 2⟩⟩, ⟨"newton", -1, ⟨4, 10⟩⟩]).problems = [] ∧ ∃ den : String → Dimension,
        (∀ t ∈ [Term.mk "Pa" 2 ⟨0, 2⟩, ⟨"newton", -1, ⟨4, 10⟩⟩], ∀ d,
          UnitSystem.mechanics.Denotes t.name d ↔ d = den t.name) ∧
        (of .mechanics [⟨"Pa", 2, ⟨0, 2⟩⟩, ⟨"newton", -1, ⟨4, 10⟩⟩]).units =
          .productOf den [("Pa", 2), ("newton", -1)] :=
  ⟨UnitSystem.regular_mechanics, evaluation_eq_substitution fun _ _ => UnitSystem.regular_mechanics _⟩

end Evaluation
end Dimensional
