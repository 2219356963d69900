import Dimensional.Proofs.Dimension.Obtained
import Dimensional.Proofs.Resolution.Stack

/-!
# Exponents of resolved units

An evaluation makes its dimensions by taking powers of what references resolve to and multiplying them one after the
other. What it promises of their exponents is therefore said by following the references of the definitions
(`UnitSystem.AddsUp`), with a sum and a product that go to the nearest exponent at each reference, and a placeholder
where a reference is not expanded. The invariant `Expansion.Accounted` says so of the frames and of the memory.

The main statement is `stored_exponents`, for all operations and for evaluations.
-/

namespace Dimensional

open Exponent (nearest)

namespace UnitSystem

/-- The name that stands for a reference that is not expanded. -/
inductive Placeholder (system : UnitSystem) : String → String → Prop
  | base {n : String} (h : system.definition n = .base) : Placeholder system n n
  | cyclic {n : String} (h : system.Cyclic n) : Placeholder system n n
  | malformed {n : String} (h : system.Refers n "") : Placeholder system "" n

/-- The exponents that references add up to, one after the other. -/
inductive AddsUp (system : UnitSystem) : List (String × Exponent) → (String → Int) → Prop
  | nil : AddsUp system [] fun _ => 0
  | placeholder {done : List (String × Exponent)} {f : String → Int} {n m : String} (h : AddsUp system done f)
      (hm : system.Placeholder n m) (e : Exponent) :
      AddsUp system (done ++ [(n, e)]) fun k => nearest (f k + nearest ((if k = m then 1 else 0) * e.val))
  | expanded {done : List (String × Exponent)} {f g : String → Int} {n : String} (h : AddsUp system done f)
      (hc : system.definition n ≠ .base) (hn : AddsUp system (system.definition n).factors g) (e : Exponent) :
      AddsUp system (done ++ [(n, e)]) fun k => nearest (f k + nearest (g k * e.val))

/-- A dimension has the exponents that references add up to. -/
def Spells (system : UnitSystem) : Folding :=
  fun done d => ∃ f, system.AddsUp done f ∧ d.Obtained f

/-- A dimension that a reference can resolve to. -/
inductive Yields (system : UnitSystem) (n : String) : Dimension → Prop
  | placeholder {m : String} (hm : system.Placeholder n m) : Yields system n (.base m 1)
  | expanded {d : Dimension} (hc : system.definition n ≠ .base) (hd : system.Spells (system.definition n).factors d) :
      Yields system n d

variable {system : UnitSystem} {done : List (String × Exponent)} {d d' : Dimension} {n : String}

theorem spells_nil : system.Spells [] .dimensionless :=
  ⟨_, .nil, .dimensionless⟩

/-- One more reference is a factor more. -/
theorem Spells.append_singleton (h : system.Spells done d) (hn : system.Yields n d') (e : Exponent) :
    system.Spells (done ++ [(n, e)]) (d.mul (d'.pow e)) := by
  obtain ⟨f, hf, hd⟩ := h
  cases hn with
  | @placeholder m hm => exact ⟨_, hf.placeholder hm e, hd.mul ((Dimension.Obtained.base m 1).pow e)⟩
  | expanded hc hd' =>
    obtain ⟨g, hg, hd'⟩ := hd'
    exact ⟨_, hf.expanded hc hg e, hd.mul (hd'.pow e)⟩

end UnitSystem

namespace Expansion

open Relation (ReflTransGen)

/-- All dimensions that are kept have the exponents that references add up to. -/
structure Accounted (system : UnitSystem) (x : Expansion ()) : Prop where
  stack : Stack system system.Spells none x.frames
  memory : ∀ n d, x.resolved.get? n = some d → system.Yields n d
  cyclic : ∀ n ∈ x.cyclic, system.Cyclic n

variable {system : UnitSystem} {span : Span} {x y : Expansion ()} {f : Frame} {n : String} {d : Dimension}
  {c : List String} {ps : List Problem}

theorem Accounted.initial (system : UnitSystem) : Accounted system .initial :=
  ⟨trivial, fun _ _ hr => absurd hr nofun, fun _ hn => absurd hn List.not_mem_nil⟩

theorem Accounted.yields_of_known (h : Accounted system x) (hk : x.Known system n d) : system.Yields n d := by
  cases hk with
  | reported hc => exact .placeholder (.cyclic (h.cyclic n hc))
  | remembered _ hr => exact h.memory n d hr
  | base hb => exact .placeholder (.base hb)

/-- What is folded into a finished frame is remembered. -/
theorem Accounted.memory_insert (h : Accounted system x) (hf : f.Stands system system.Spells none)
    (hp : f.pending = []) : ∀ n d, (x.resolved.insert f.name f.folded).get? n = some d → system.Yields n d := by
  intro n d hd
  rw [NameMap.get?_insert] at hd
  split at hd
  · next heq =>
    cases hd
    rw [heq]
    exact .expanded hf.compound (hf.folds hp)
  · exact h.memory n d hd

/-- A reference that is settled at once yields what it is settled as. -/
theorem Accounted.settles (h : Accounted system x) {rest : List Frame} {e : Exponent} {more : List (String × Exponent)}
    (hx : x.frames = f :: rest) (hp : f.pending = (n, e) :: more) (hs : x.Settles system span f n d c ps) :
    system.Yields n d ∧ ∀ m ∈ c, system.Cyclic m := by
  have hstack := hx ▸ h.stack
  cases hs with
  | empty => exact ⟨.placeholder (.malformed (hstack.1.refers_of_pending hp)), h.cyclic⟩
  | known hn hk => exact ⟨h.yields_of_known hk, h.cyclic⟩
  | closing hn hc hm =>
    have hcyclic : system.Cyclic n := hstack.cyclic_of_pending hp hn (hx ▸ mem_chain.mp hm)
    refine ⟨.placeholder (.cyclic hcyclic), fun m hm => ?_⟩
    rcases List.mem_cons.mp hm with rfl | hm
    · exact hcyclic
    · exact h.cyclic m hm

/-- **Every move keeps the account.** -/
theorem Accounted.move (h : Accounted system x) (hm : Move system span x y) : Accounted system y := by
  cases hm with
  | @leave f g rest hx hp =>
    obtain ⟨hf, hrest⟩ := hx ▸ h.stack
    have hyields : system.Yields f.name f.folded := .expanded hf.compound (hf.folds hp)
    exact ⟨hrest.absorb fun _ hd => hd.append_singleton hyields _, h.memory_insert hf hp, h.cyclic⟩
  | @settle f rest n e more d c ps hx hp hs =>
    obtain ⟨hyields, hcyclic⟩ := h.settles hx hp hs
    exact ⟨(hx ▸ h.stack).settle hp fun _ hd => hd.append_singleton hyields _, h.memory, hcyclic⟩
  | @descend f rest n e more hx hp hn hfresh =>
    obtain ⟨hf, hrest⟩ := hx ▸ h.stack
    exact ⟨⟨.start hfresh.compound UnitSystem.spells_nil, hf.advance hp hn, hrest⟩, h.memory, h.cyclic⟩

theorem Accounted.moves (h : Accounted system x) (hm : ReflTransGen (Move system span) x y) : Accounted system y := by
  induction hm with
  | refl => exact h
  | tail _ hlast ih => exact ih.move hlast

theorem Accounted.resolveName (h : Accounted system x) (hx : x.Idle) (span : Span) (n : String) :
    system.Yields n (x.resolveName system span n).1 ∧ Accounted system (x.resolveName system span n).2 := by
  rcases resolveName_cases hx system span n with ⟨d, hk, he⟩ | ⟨hfresh, y, f, hy, hyf, rfl, hp, he⟩ <;> rw [he]
  · exact ⟨h.yields_of_known hk, h⟩
  · have hstart : Accounted system (x.started system f.name) :=
      ⟨⟨.start hfresh.compound UnitSystem.spells_nil, trivial⟩, h.memory, h.cyclic⟩
    have hend := hstart.moves hy
    obtain ⟨hf, -⟩ := hyf ▸ hend.stack
    exact ⟨.expanded hf.compound (hf.folds hp), trivial, hend.memory_insert hf hp, hend.cyclic⟩

end Expansion

namespace Evaluation

open Expansion

variable {system : UnitSystem} {e : Expression}

theorem accounted_after (system : UnitSystem) (e : Expression) :
    system.Spells (e.map Term.power) (after system e).1 ∧ Accounted system (after system e).2 := by
  induction e using List.reverseRecOn with
  | nil => exact ⟨UnitSystem.spells_nil, .initial system⟩
  | append_singleton e t ih =>
    obtain ⟨hspells, haccount⟩ := ih
    obtain ⟨hyields, haccount'⟩ := haccount.resolveName (idle_after system e) t.span t.name
    rw [after_append_singleton, addTerm_eq, List.map_append, List.map_singleton]
    exact ⟨hspells.append_singleton hyields t.exponent, haccount'⟩

end Evaluation

/-- **Zero exponents are never stored, and equality is extensional.** A dimension that is obtained by operations has
exactly those of the exponents they promise that are not 0, so two such dimensions are equal exactly when the exponents
agree for all names. What a JSON object decodes to and what an expression evaluates to, in any system, are obtained in
this way. -/
theorem stored_exponents :
    (∀ (d : Dimension) (f : String → Int), d.Obtained f →
      ∀ name e, (name, e) ∈ d.entries ↔ e.val = f name ∧ f name ≠ 0) ∧
    (∀ (d d' : Dimension) (f f' : String → Int), d.Obtained f → d'.Obtained f' →
      (d = d' ↔ ∀ name, d.exponent name = d'.exponent name) ∧ (d = d' ↔ ∀ name, f name = f' name)) ∧
    (∀ (nesting : Nat) (doc : Json.Document) (d : Dimension), Dimension.decode nesting doc = .ok d →
      ∃ members, doc = .object members none ∧ d.Obtained fun n => Dimension.lastExponent n members) ∧
    ∀ (system : UnitSystem) (e : Expression),
      ∃ f, system.AddsUp (e.map Term.power) f ∧ (Evaluation.of system e).units.Obtained f := by
  refine ⟨fun d f h name e => h.mem_entries_iff, fun d d' f f' h h' => ⟨⟨?_, Dimension.ext_exponent⟩, h.eq_iff h'⟩,
    fun nesting doc d h => ?_, fun system e => (Evaluation.accounted_after system e).1⟩
  · rintro rfl name
    rfl
  · obtain ⟨members, rfl, -⟩ := Dimension.decode_eq_ok h
    exact ⟨members, rfl, .decode h⟩

/-- One metre more than the greatest power is not more, and one less leaves no metre of one; of two exponents in an
object the last one counts, and it is not kept if it is 0. -/
theorem stored_exponents_metres :
    let greatest : Exponent := .ofInt Exponent.greatest
    let metres := (Dimension.base "m" greatest).accumulate "m" 1
    let members : List (Json.StringText × Json.Document) :=
      [(⟨[.char 'm'], .quote⟩, .number ⟨false, [1], [], none⟩), (⟨[.char 'm'], .quote⟩, .number ⟨false, [0], [], none⟩)]
    (("m", greatest) ∈ metres.entries ∧ ∀ e, ("m", e) ∉ ((Dimension.base "m" 1).accumulate "m" (-1)).entries) ∧
    metres = Dimension.base "m" greatest ∧
    (∃ d, Dimension.decode 1 (.object members none) = .ok d ∧ ∀ e, ("m", e) ∉ d.entries) ∧
    ∃ f, UnitSystem.mechanics.AddsUp [("newton", 2)] f ∧
      (Evaluation.of .mechanics [⟨"newton", 2, ⟨0, 6⟩⟩]).units.Obtained f := by
  intro greatest metres members
  obtain ⟨hkept, hequal, hdecoded, hevaluated⟩ := stored_exponents
  have hmetres := (Dimension.Obtained.base "m" greatest).accumulate "m" 1
  have hcancelled := (Dimension.Obtained.base "m" 1).accumulate "m" (-1)
  refine ⟨⟨(hkept _ _ hmetres "m" greatest).mpr (by decide), fun e he => ?_⟩, ?_, ?_,
    hevaluated .mechanics [⟨"newton", 2, ⟨0, 6⟩⟩]⟩
  · exact ((hkept _ _ hcancelled "m" e).mp he).2 (by decide)
  · refine (hequal _ _ _ _ hmetres (.base "m" greatest)).2.mpr fun name => ?_
    by_cases hn : name = "m"
    · subst hn
      decide
    · simp only [if_neg hn]
  · have hd : Dimension.decode 1 (.object members none) = .ok .dimensionless := rfl
    obtain ⟨members', hdoc, hobtained⟩ := hdecoded _ _ _ hd
    cases hdoc
    exact ⟨_, hd, fun e he => ((hkept _ _ hobtained "m" e).mp he).2 (by decide)⟩

end Dimensional
