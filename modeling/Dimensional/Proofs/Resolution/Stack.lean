import Dimensional.Proofs.Dimension.Exponents
import Dimensional.Proofs.Resolution.Transition
import Mathlib.Data.List.Chain

/-!
# The stack of definitions

Each frame of the stack stands at a place in its definition: some references are folded into its product, one is being
resolved by the frame above it, the others are still to come (`Frame.Stands`). What the product of the folded references
is may differ from use to use, so it is a parameter `Folds`.

The main statements: the names on the stack depend on each other from the outermost to the innermost
(`Stack.isChain`), so each of them leads to the innermost (`Stack.reaches`), and what passes on to dependencies stays true
of all of them (`Move.forall_names`).
-/

namespace Dimensional

/-- References whose product is a dimension, in some sense. -/
abbrev Folding := List (String × Exponent) → Dimension → Prop

def Folding.All (P : String → Prop) : Folding :=
  fun done _ => ∀ r ∈ done, P r.1

theorem Folding.All.append_singleton {P : String → Prop} {done : List (String × Exponent)} {d : Dimension}
    {n : String} {e : Exponent} (hd : Folding.All P done d) (d' : Dimension) (hn : P n) :
    Folding.All P (done ++ [(n, e)]) d' := by
  intro r hr
  rcases List.mem_append.mp hr with hr | hr
  · exact hd r hr
  · rw [List.mem_singleton.mp hr]
    exact hn

/-- The place of a frame in its definition: the references before `current` are folded, `current` is being resolved,
and those after it are pending. -/
structure Frame.Stands (system : UnitSystem) (Folds : Folding) (current : Option String) (f : Frame) : Prop where
  definition_eq : f.definition = system.definition f.name
  compound : system.definition f.name ≠ .base
  named : current ≠ some ""
  /-- Only a synonym shares a dimension. -/
  unshared : f.shared = none ∨ ∃ target, f.definition = .synonym target
  place : ∃ done, (system.definition f.name).factors =
    done ++ (current.toList.map fun n => (n, f.exponent)) ++ f.pending ∧
      (done = [] → f.folded = .dimensionless) ∧ Folds done f.folded

/-- Frames each of which is the current reference of the one below it; `current` is that of the innermost. -/
def Stack (system : UnitSystem) (Folds : Folding) : Option String → List Frame → Prop
  | _, [] => True
  | current, f :: rest => f.Stands system Folds current ∧ Stack system Folds (some f.name) rest

variable {system : UnitSystem} {Folds : Folding} {current : Option String} {f : Frame} {rest : List Frame}
  {n : String} {e : Exponent} {more : List (String × Exponent)} {d : Dimension}

/-! ### A frame in its definition -/

namespace Frame

@[simp] theorem folded_advance : (f.advance e more).folded = f.folded := rfl

/-- **A dimension is taken up as a factor.** A synonym shares the dimension as it is, but it has no other reference, and
its exponent is 1. -/
theorem folded_absorb {done : List (String × Exponent)} (he : f.definition.factors = done ++ (n, f.exponent) :: more)
    (hfirst : done = [] → f.folded = .dimensionless)
    (hshared : f.shared = none ∨ ∃ target, f.definition = .synonym target) :
    (f.absorb d).folded = f.folded.mul (d.pow f.exponent) := by
  cases hd : f.definition with
  | base => simp [hd, Definition.factors] at he
  | synonym target =>
    rw [hd, Definition.factors, List.singleton_eq_append_iff] at he
    obtain ⟨rfl, he⟩ | ⟨-, he⟩ := he
    · have hone : f.exponent = 1 := (Prod.mk.inj (List.cons.inj he).1).2
      rw [hfirst rfl, hone, Dimension.pow_one, Dimension.dimensionless_mul]
      simp [absorb, hd, folded]
    · cases he
  | product factors =>
    have hnone : f.shared = none := by simpa [hd] using hshared
    simp [absorb, hd, folded, hnone, Dimension.mulPow_eq]

/-- A product never shares a dimension. -/
theorem unshared_absorb (hshared : f.shared = none ∨ ∃ target, f.definition = .synonym target) :
    (f.absorb d).shared = none ∨ ∃ target, (f.absorb d).definition = .synonym target := by
  rw [definition_absorb]
  unfold absorb
  split
  · next target hd => exact .inr ⟨target, hd⟩
  · exact hshared

end Frame

namespace Frame.Stands

theorem mono {Folds' : Folding} (h : f.Stands system Folds current) (hF : ∀ done d, Folds done d → Folds' done d) :
    f.Stands system Folds' current := by
  obtain ⟨done, he, hfirst, hd⟩ := h.place
  exact ⟨h.definition_eq, h.compound, h.named, h.unshared, done, he, hfirst, hF _ _ hd⟩

theorem start (hb : system.definition n ≠ .base) (h0 : Folds [] .dimensionless) :
    (Frame.start n (system.definition n)).Stands system Folds none :=
  ⟨rfl, hb, nofun, .inl rfl, [], rfl, fun _ => rfl, h0⟩

/-- The next reference becomes the current one. -/
theorem advance (h : f.Stands system Folds none) (hp : f.pending = (n, e) :: more) (hn : n ≠ "") :
    (f.advance e more).Stands system Folds (some n) := by
  obtain ⟨done, he, hfirst, hd⟩ := h.place
  refine ⟨h.definition_eq, h.compound, fun h' => hn (Option.some.inj h'), h.unshared, done, ?_, hfirst, hd⟩
  rw [hp] at he
  simpa [Frame.advance] using he

/-- A reference of which it is known where it stands is folded. -/
theorem fold {done : List (String × Exponent)} (hdef : f.definition = system.definition f.name)
    (hb : system.definition f.name ≠ .base) (hshared : f.shared = none ∨ ∃ target, f.definition = .synonym target)
    (he : (system.definition f.name).factors = done ++ (n, f.exponent) :: f.pending)
    (hfirst : done = [] → f.folded = .dimensionless)
    (hF : Folds (done ++ [(n, f.exponent)]) (f.folded.mul (d.pow f.exponent))) :
    (f.absorb d).Stands system Folds none := by
  have hfolded : (f.absorb d).folded = f.folded.mul (d.pow f.exponent) :=
    Frame.folded_absorb (hdef ▸ he) hfirst hshared
  refine ⟨?_, ?_, nofun, Frame.unshared_absorb hshared, done ++ [(n, f.exponent)], ?_, ?_, hfolded ▸ hF⟩
  · rw [Frame.definition_absorb, Frame.name_absorb, hdef]
  · rwa [Frame.name_absorb]
  · simpa using he
  · exact fun hnil => absurd hnil (by simp)

/-- The current reference is folded. -/
theorem absorb (h : f.Stands system Folds (some n))
    (hF : ∀ done, Folds done f.folded → Folds (done ++ [(n, f.exponent)]) (f.folded.mul (d.pow f.exponent))) :
    (f.absorb d).Stands system Folds none := by
  obtain ⟨done, he, hfirst, hd⟩ := h.place
  exact fold h.definition_eq h.compound h.unshared (by simpa using he) hfirst (hF done hd)

/-- The next reference is folded at once. -/
theorem settle (h : f.Stands system Folds none) (hp : f.pending = (n, e) :: more)
    (hF : ∀ done, Folds done f.folded → Folds (done ++ [(n, e)]) (f.folded.mul (d.pow e))) :
    ((f.advance e more).absorb d).Stands system Folds none := by
  obtain ⟨done, he, hfirst, hd⟩ := h.place
  rw [hp] at he
  have hplace : (system.definition f.name).factors = done ++ (n, e) :: more := by simpa using he
  exact fold (f := f.advance e more) h.definition_eq h.compound h.unshared hplace hfirst (hF done hd)

/-- When nothing is pending, the whole definition is folded. -/
theorem folds (h : f.Stands system Folds none) (hp : f.pending = []) :
    Folds (system.definition f.name).factors f.folded := by
  obtain ⟨done, he, -, hd⟩ := h.place
  rw [hp] at he
  simp only [Option.toList_none, List.map_nil, List.append_nil] at he
  rwa [he]

theorem refers_of_pending (h : f.Stands system Folds current) (hp : f.pending = (n, e) :: more) :
    system.Refers f.name n := by
  obtain ⟨done, he, -⟩ := h.place
  simp [UnitSystem.Refers, Definition.references, he, hp]

theorem dependsOn (h : f.Stands system Folds (some n)) : system.DependsOn f.name n := by
  obtain ⟨done, he, -⟩ := h.place
  refine ⟨fun hn => h.named (congrArg some hn), ?_⟩
  simp [UnitSystem.Refers, Definition.references, he]

end Frame.Stands

/-! ### The whole stack -/

namespace Stack

theorem mono {Folds' : Folding} {frames : List Frame} (h : Stack system Folds current frames)
    (hF : ∀ done d, Folds done d → Folds' done d) : Stack system Folds' current frames := by
  induction frames generalizing current with
  | nil => trivial
  | cons f rest ih => exact ⟨h.1.mono hF, ih h.2⟩

/-- The current reference of the innermost frame is folded. -/
theorem absorb (h : Stack system Folds (some n) (f :: rest))
    (hF : ∀ done, Folds done f.folded → Folds (done ++ [(n, f.exponent)]) (f.folded.mul (d.pow f.exponent))) :
    Stack system Folds none (f.absorb d :: rest) :=
  ⟨h.1.absorb hF, (Frame.name_absorb f d).symm ▸ h.2⟩

/-- The next reference of the innermost frame is folded at once. -/
theorem settle (h : Stack system Folds none (f :: rest)) (hp : f.pending = (n, e) :: more)
    (hF : ∀ done, Folds done f.folded → Folds (done ++ [(n, e)]) (f.folded.mul (d.pow e))) :
    Stack system Folds none ((f.advance e more).absorb d :: rest) :=
  ⟨h.1.settle hp hF, (Frame.name_absorb (f.advance e more) d).symm ▸ h.2⟩

/-- **The names on the stack are a chain of dependencies**, the outermost first. -/
theorem isChain {frames : List Frame} (h : Stack system Folds current frames) :
    (frames.map Frame.name).reverse.IsChain system.DependsOn := by
  rw [List.isChain_reverse]
  induction frames generalizing current with
  | nil => exact .nil
  | cons f rest ih =>
    cases rest with
    | nil => exact .singleton _
    | cons g rest => exact .cons_cons h.2.1.dependsOn (ih h.2)

theorem reaches (h : Stack system Folds current (f :: rest)) : ∀ g ∈ f :: rest, system.Reaches g.name f.name := by
  induction rest generalizing current f with
  | nil =>
    intro g hg
    rw [List.mem_singleton.mp hg]
    exact .refl
  | cons k rest ih =>
    intro g hg
    rcases List.mem_cons.mp hg with rfl | hg
    · exact .refl
    · exact (ih h.2 g hg).tail h.2.1.dependsOn

/-- A name that is reached again while it is under expansion is on a cycle. -/
theorem cyclic_of_pending (h : Stack system Folds current (f :: rest)) (hp : f.pending = (n, e) :: more) (hn : n ≠ "")
    (hm : ∃ g ∈ f :: rest, g.name = n) : system.Cyclic n := by
  obtain ⟨g, hg, rfl⟩ := hm
  exact Relation.TransGen.tail' (h.reaches g hg) ⟨hn, h.1.refers_of_pending hp⟩

end Stack

/-- What holds of the names on the stack and passes on to dependencies holds of them after a move. -/
theorem Expansion.Move.forall_names {span : Span} {x y : Expansion ()} {P : String → Prop}
    (hm : Expansion.Move system span x y) (hs : Stack system Folds none x.frames) (hP : ∀ f ∈ x.frames, P f.name)
    (hd : ∀ m r, P m → system.DependsOn m r → P r) : ∀ f ∈ y.frames, P f.name := by
  cases hm with
  | @leave f g rest hx hp =>
    intro k hk
    rcases List.mem_cons.mp hk with rfl | hk
    · rw [Frame.name_absorb]
      exact hP g (by simp [hx])
    · exact hP k (by simp [hx, hk])
  | @settle f rest n e more d c ps hx hp hset =>
    intro k hk
    rcases List.mem_cons.mp hk with rfl | hk
    · rw [Frame.name_absorb]
      exact hP f (by simp [hx])
    · exact hP k (by simp [hx, hk])
  | @descend f rest n e more hx hp hn hf =>
    obtain ⟨hstands, -⟩ := hx ▸ hs
    have hPf := hP f (by simp [hx])
    intro k hk
    rcases List.mem_cons.mp hk with rfl | hk
    · exact hd f.name n hPf ⟨hn, hstands.refers_of_pending hp⟩
    · rcases List.mem_cons.mp hk with rfl | hk
      · exact hPf
      · exact hP k (by simp [hx, hk])

/-- A term is folded like a reference. -/
theorem Evaluation.addTerm_eq (system : UnitSystem) (s : Dimension × Expansion ()) (t : Term) :
    addTerm system s t = (s.1.mul ((s.2.resolveName system t.span t.name).1.pow t.exponent),
      (s.2.resolveName system t.span t.name).2) := by
  rw [addTerm, Dimension.mulPow_eq]

end Dimensional
