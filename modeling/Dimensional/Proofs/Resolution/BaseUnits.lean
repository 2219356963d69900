import Dimensional.Proofs.Dimension.ReadBack
import Dimensional.Proofs.Resolution.Cycles
import Dimensional.Proofs.Resolution.Locality

/-!
# What resolved units are made of

A name stays in the units of an expression if there is nothing to put in its place: it is a base unit, it was found on a
cycle, or its definition was reported to refer to the empty name (`Final`). Dimensions are kept in three places, the
frames, the memory and the product of the terms, and they go from one to the other, so the invariant `Grounded` speaks
of all of them.

The main statement is `units_of_final_names`: the units of an expression are made of such names, and where nothing is
wrong they are made of base units and resolve to themselves.
-/

namespace Dimensional

/-! ### The names of a dimension -/

namespace Dimension

/-- All names that occur in the dimension have a property. -/
def Over (Q : String → Prop) (d : Dimension) : Prop := ∀ n, d.exponent n ≠ 0 → Q n

variable {Q Q' : String → Prop} {d d' : Dimension} {n : String} {e : Exponent}

theorem Over.mono (h : d.Over Q) (hQ : ∀ n, Q n → Q' n) : d.Over Q' :=
  fun n hn => hQ n (h n hn)

theorem over_dimensionless : dimensionless.Over Q :=
  fun n hn => absurd (exponent_dimensionless n) hn

theorem over_base (h : Q n) : (base n e).Over Q := by
  intro m hm
  rw [exponent_base] at hm
  split at hm
  · next heq => rwa [heq]
  · exact absurd rfl hm

/-- Names can cancel in a product, but none is new. -/
theorem Over.mul (h : d.Over Q) (h' : d'.Over Q) : (d.mul d').Over Q := by
  intro n hn
  by_cases hd : d.exponent n = 0
  · apply h'
    intro hd'
    rw [exponent_mul, hd, hd', Exponent.zero_add] at hn
    exact hn rfl
  · exact h n hd

theorem Over.pow (h : d.Over Q) (e : Exponent) : (d.pow e).Over Q := by
  intro n hn
  apply h
  intro hd
  rw [exponent_pow, hd, Exponent.zero_mul] at hn
  exact hn rfl

theorem Over.of_mem (h : d.Over Q) {p : String × Exponent} (hp : p ∈ d.entries) : Q p.1 := by
  apply h
  rw [exponent_of_mem hp]
  exact d.nonzero p hp

end Dimension

namespace Expansion

open Relation (ReflTransGen)

/-! ### Names that stay -/

def malformedReport (system : UnitSystem) (n : String) (span : Span) : Problem :=
  ⟨.internalError, span, .malformed (Frame.start n (system.definition n)).emptyReferenceText⟩

/-- A name that nothing is put in the place of, with the names on cycles and the problems found so far. -/
inductive Final (system : UnitSystem) (cyclic : List String) (problems : List Problem) (n : String) : Prop
  | base (h : system.definition n = .base)
  | cyclic (h : n ∈ cyclic)
  | malformed (span : Span) (h : system.Refers n "") (hp : malformedReport system n span ∈ problems)

def Admissible (system : UnitSystem) (P : String → Prop) (x : Expansion ()) (n : String) : Prop :=
  P n ∧ Final system x.cyclic x.problems n

/-- All that is kept is made of final names with a property, and only names with the property are expanded. -/
structure Grounded (system : UnitSystem) (P : String → Prop) (x : Expansion ()) : Prop where
  stack : Stack system (fun _ d => d.Over (x.Admissible system P)) none x.frames
  names : ∀ f ∈ x.frames, P f.name
  memory : ∀ n d, x.resolved.get? n = some d → d.Over (x.Admissible system P)

variable {system : UnitSystem} {P : String → Prop} {span : Span} {x y : Expansion ()} {f : Frame} {n : String}
  {d : Dimension} {c : List String} {ps : List Problem}

theorem Grounded.initial (system : UnitSystem) (P : String → Prop) : Grounded system P .initial :=
  ⟨trivial, fun _ hf => absurd hf List.not_mem_nil, fun _ _ hr => absurd hr nofun⟩

theorem Grows.admissible (h : Grows x y) (n : String) (hn : x.Admissible system P n) : y.Admissible system P n := by
  refine ⟨hn.1, ?_⟩
  cases hn.2 with
  | base hb => exact .base hb
  | cyclic hc => exact .cyclic (h.cyclic hc)
  | malformed span hr hp => exact .malformed span hr (h.problems hp)

/-! ### Moves -/

theorem Grounded.known (h : Grounded system P x) (hn : P n) (hk : x.Known system n d) :
    d.Over (x.Admissible system P) := by
  cases hk with
  | reported hc => exact Dimension.over_base ⟨hn, .cyclic hc⟩
  | remembered hc hr => exact h.memory n d hr
  | base hb => exact Dimension.over_base ⟨hn, .base hb⟩

theorem Grounded.memory_insert (h : Grounded system P x) (hd : d.Over (x.Admissible system P)) (n : String) :
    ∀ m v, (x.resolved.insert n d).get? m = some v → v.Over (x.Admissible system P) := by
  intro m v hm
  rw [NameMap.get?_insert] at hm
  split at hm
  · cases hm
    exact hd
  · exact h.memory m v hm

/-- What a reference is settled as is made of names that are final afterwards. -/
theorem Grounded.settles (h : Grounded system P x) (hP : system.PassesOn P) {rest : List Frame} {e : Exponent}
    {more : List (String × Exponent)} (hx : x.frames = f :: rest) (hp : f.pending = (n, e) :: more)
    (hs : x.Settles system span f n d c ps) :
    d.Over (Admissible system P ⟨(f.advance e more).absorb d :: rest, x.positions, x.resolved, c, ps⟩) := by
  obtain ⟨hf, -⟩ := hx ▸ h.stack
  have hPf : P f.name := h.names f (by simp [hx])
  have href := hf.refers_of_pending hp
  cases hs with
  | empty =>
    -- the unit that the malformed definition defines stands for the empty name
    have htext : f.emptyReferenceText = (Frame.start f.name (system.definition f.name)).emptyReferenceText := by
      simp only [Frame.emptyReferenceText, Frame.start, hf.definition_eq]
    refine Dimension.over_base ⟨hPf, .malformed span href ?_⟩
    rw [malformedReport, ← htext]
    exact List.mem_append_right _ List.mem_cons_self
  | known hn hk => exact h.known (hP _ _ hPf ⟨hn, href⟩) hk
  | closing hn hc hm => exact Dimension.over_base ⟨hP _ _ hPf ⟨hn, href⟩, .cyclic List.mem_cons_self⟩

/-- **Every move keeps to final names.** -/
theorem Grounded.move (h : Grounded system P x) (hP : system.PassesOn P) (hm : Move system span x y) :
    Grounded system P y := by
  have hnames := hm.forall_names h.stack h.names hP
  have hgrows := hm.grows
  cases hm with
  | @leave f g rest hx hp =>
    obtain ⟨hf, hrest⟩ := hx ▸ h.stack
    have hfolded : f.folded.Over (x.Admissible system P) := hf.folds hp
    have hrest' := hrest.absorb (d := f.folded) fun _ hd => hd.mul (hfolded.pow g.exponent)
    exact ⟨hrest', hnames, h.memory_insert hfolded f.name⟩
  | @settle f rest n e more d c ps hx hp hs =>
    have hd := h.settles hP hx hp hs
    have hstack := (hx ▸ h.stack).mono fun _ d hd => hd.mono hgrows.admissible
    have hstack' := hstack.settle (d := d) hp fun _ hfolded => hfolded.mul (hd.pow e)
    exact ⟨hstack', hnames, fun n d hn => (h.memory n d hn).mono hgrows.admissible⟩
  | @descend f rest n e more hx hp hn hf =>
    obtain ⟨hstands, hrest⟩ := hx ▸ h.stack
    have hadv := hstands.advance hp hn
    exact ⟨⟨.start hf.compound Dimension.over_dimensionless, hadv, hrest⟩, hnames, h.memory⟩

theorem Grounded.moves (h : Grounded system P x) (hP : system.PassesOn P) (hm : ReflTransGen (Move system span) x y) :
    Grounded system P y ∧ Grows x y := by
  induction hm with
  | refl => exact ⟨h, .refl x⟩
  | tail _ hlast ih => exact ⟨ih.1.move hP hlast, ih.2.trans hlast.grows⟩

/-! ### Names and terms -/

theorem Grounded.resolveName (h : Grounded system P x) (hP : system.PassesOn P) (hx : x.Idle) (hn : P n)
    (span : Span) :
    (x.resolveName system span n).1.Over ((x.resolveName system span n).2.Admissible system P) ∧
      Grounded system P (x.resolveName system span n).2 ∧ Grows x (x.resolveName system span n).2 := by
  rcases resolveName_cases hx system span n with ⟨d, hk, he⟩ | ⟨hf, y, f, hy, hyf, rfl, hp, he⟩ <;> rw [he]
  · exact ⟨h.known hn hk, h, .refl x⟩
  · have hstart : Grounded system P (x.started system f.name) := by
      refine ⟨⟨.start hf.compound Dimension.over_dimensionless, trivial⟩, ?_, h.memory⟩
      intro g hg
      rw [List.mem_singleton.mp hg]
      exact hn
    obtain ⟨hend, hgrows⟩ := hstart.moves hP hy
    obtain ⟨hstands, -⟩ := hyf ▸ hend.stack
    have hfolded : f.folded.Over (y.Admissible system P) := hstands.folds hp
    exact ⟨hfolded, ⟨trivial, fun _ hg => absurd hg List.not_mem_nil, hend.memory_insert hfolded f.name⟩,
      ⟨hgrows.cyclic, hgrows.problems⟩⟩

end Expansion

namespace Evaluation

open Expansion

variable {system : UnitSystem} {P : String → Prop} {e : Expression}

theorem grounded_after (hP : system.PassesOn P) (he : ∀ t ∈ e, P t.name) :
    (after system e).1.Over ((after system e).2.Admissible system P) ∧ Grounded system P (after system e).2 := by
  induction e using List.reverseRecOn with
  | nil => exact ⟨Dimension.over_dimensionless, .initial system P⟩
  | append_singleton e t ih =>
    obtain ⟨hproduct, hground⟩ := ih fun u hu => he u (List.mem_append_left _ hu)
    have ht : P t.name := he t (by simp)
    obtain ⟨hname, hground', hgrows⟩ := hground.resolveName hP (idle_after system e) ht t.span
    rw [after_append_singleton, addTerm_eq]
    exact ⟨(hproduct.mono hgrows.admissible).mul (hname.pow t.exponent), hground'⟩

/-- Units over base units resolve to themselves. -/
theorem of_entries {d : Dimension} (hb : ∀ p ∈ d.entries, system.definition p.1 = .base)
    (he : e.map Term.power = d.entries) : of system e = ⟨d, []⟩ := by
  have hterms : ∀ t ∈ e, system.definition t.name = .base := by
    intro t ht
    exact hb t.power (he ▸ List.mem_map_of_mem ht)
  rw [of_base hterms, he, Dimension.ofList_entries]

/-- **Resolved units are made of names that cannot be resolved further.** Each is reached from a term, and is a base
unit, the unit of a reported cycle, or a unit whose definition was reported to refer to the empty name. Where nothing is
reported the units are made of base units, and their own powers resolve to them. -/
theorem units_of_final_names (system : UnitSystem) (e : Expression) :
    (∀ p ∈ (of system e).units.entries, (∃ t ∈ e, system.Reaches t.name p.1) ∧
      (system.definition p.1 = .base ∨ (∃ q ∈ (of system e).problems, q.cycleUnit? = some p.1) ∨
        system.Refers p.1 "" ∧ ∃ span, malformedReport system p.1 span ∈ (of system e).problems)) ∧
    ((of system e).problems = [] → (∀ p ∈ (of system e).units.entries, system.definition p.1 = .base) ∧
      ∀ e' : Expression, e'.map Term.power = (of system e).units.entries → of system e' = ⟨(of system e).units, []⟩) := by
  obtain ⟨hover, -⟩ := grounded_after (system.passesOn_reaches e) fun t ht => ⟨t, ht, .refl⟩
  have hkinds : ∀ p ∈ (of system e).units.entries, (∃ t ∈ e, system.Reaches t.name p.1) ∧
      (system.definition p.1 = .base ∨ (∃ q ∈ (of system e).problems, q.cycleUnit? = some p.1) ∨
        system.Refers p.1 "" ∧ ∃ span, malformedReport system p.1 span ∈ (of system e).problems) := by
    intro p hp
    obtain ⟨hreach, hfinal⟩ := hover.of_mem hp
    refine ⟨hreach, ?_⟩
    cases hfinal with
    | base hb => exact .inl hb
    | cyclic hc => exact .inr (.inl ((surveyed_after system e).mem_cyclic_iff.mp hc))
    | malformed span hr hq => exact .inr (.inr ⟨hr, span, hq⟩)
  refine ⟨hkinds, fun hclean => ?_⟩
  have hbase : ∀ p ∈ (of system e).units.entries, system.definition p.1 = .base := by
    intro p hp
    rcases (hkinds p hp).2 with hb | ⟨q, hq, -⟩ | ⟨-, span, hq⟩
    · exact hb
    · rw [hclean] at hq
      cases hq
    · rw [hclean] at hq
      cases hq
  exact ⟨hbase, fun e' he' => of_entries hbase he'⟩

end Evaluation
end Dimensional
