import Dimensional.Proofs.UnitSystem.Reference
import Dimensional.Resolution.Expansion
import Mathlib.Data.List.Induction
import Mathlib.Data.List.Nodup

/-!
# Expansion as a transition system

`Move` says all that one step of an expansion can do while the stack is not empty: the innermost definition is finished
and handed to the one below it (`leave`), a reference is settled at once (`settle`, in the ways of `Settles`), or the
definition of a name that was not met before is put on the stack (`descend`). The positions that are kept beside the
stack are looked up in its place, so that a step is a move depends on their being right (`Indexed`), which every move
preserves (`Indexed.move`).

The main statement is `resolveName_cases`: a name is either known at once, or its definition is expanded by moves until
it stands alone on the stack with nothing left to resolve. What every move preserves therefore holds of every run.
-/

namespace Dimensional

namespace Frame

/-- The frame while the reference in front of `more` is resolved. -/
def advance (f : Frame) (e : Exponent) (more : List (String × Exponent)) : Frame :=
  { f with pending := more, exponent := e }

@[simp] theorem name_start (n : String) (d : Definition) : (start n d).name = n := rfl
@[simp] theorem name_advance (f : Frame) (e : Exponent) (more : List (String × Exponent)) :
    (f.advance e more).name = f.name := rfl

end Frame

namespace Expansion

open Relation (ReflTransGen)

/-! ### What a reference can be -/

/-- A dimension that a name has without any expansion. -/
inductive Known (system : UnitSystem) (x : Expansion ()) (n : String) : Dimension → Prop
  | reported (hc : n ∈ x.cyclic) : Known system x n (.base n 1)
  | remembered {d : Dimension} (hc : n ∉ x.cyclic) (hr : x.resolved.get? n = some d) : Known system x n d
  | base (hb : system.definition n = .base) : Known system x n (.base n 1)

/-- A name whose definition is neither expanded nor under expansion. -/
structure Fresh (system : UnitSystem) (x : Expansion ()) (n : String) : Prop where
  unreported : n ∉ x.cyclic
  unchained : n ∉ x.chain
  unresolved : x.resolved.get? n = none
  compound : system.definition n ≠ .base

/-- The names that lead from `n` on the chain up to `n` again. -/
def cyclePath (x : Expansion ()) (n : String) : List String :=
  x.chain.dropWhile (fun m => m != n) ++ [n]

/-- A reference of `f` to `n` is settled at once as `d`; the names on cycles and the problems are then `c` and `ps`. -/
inductive Settles (system : UnitSystem) (span : Span) (x : Expansion ()) (f : Frame) :
    String → Dimension → List String → List Problem → Prop
  | empty : Settles system span x f "" (.base f.name 1) x.cyclic
      (x.problems ++ [⟨.internalError, span, .malformed f.emptyReferenceText⟩])
  | known {n : String} {d : Dimension} (hn : n ≠ "") (hk : x.Known system n d) :
      Settles system span x f n d x.cyclic x.problems
  | closing {n : String} (hn : n ≠ "") (hc : n ∉ x.cyclic) (hm : n ∈ x.chain) :
      Settles system span x f n (.base n 1) (n :: x.cyclic)
        (x.problems ++ [⟨.circularReferences, span, .cycle n (x.cyclePath n)⟩])

/-! ### Moves -/

/-- One step of an expansion that leaves something to do. -/
inductive Move (system : UnitSystem) (span : Span) (x : Expansion ()) : Expansion () → Prop
  | leave {f g : Frame} {rest : List Frame} (hx : x.frames = f :: g :: rest) (hp : f.pending = []) :
      Move system span x ⟨g.absorb f.folded :: rest, x.positions.erase f.name, x.resolved.insert f.name f.folded,
        x.cyclic, x.problems⟩
  | settle {f : Frame} {rest : List Frame} {n : String} {e : Exponent} {more : List (String × Exponent)}
      {d : Dimension} {c : List String} {ps : List Problem} (hx : x.frames = f :: rest)
      (hp : f.pending = (n, e) :: more) (hs : x.Settles system span f n d c ps) :
      Move system span x ⟨(f.advance e more).absorb d :: rest, x.positions, x.resolved, c, ps⟩
  | descend {f : Frame} {rest : List Frame} {n : String} {e : Exponent} {more : List (String × Exponent)}
      (hx : x.frames = f :: rest) (hp : f.pending = (n, e) :: more) (hn : n ≠ "") (hf : x.Fresh system n) :
      Move system span x
        ⟨.start n (system.definition n) :: f.advance e more :: rest, x.positions.insert n (rest.length + 1),
          x.resolved, x.cyclic, x.problems⟩

def finish (x : Expansion ()) (f : Frame) : Expansion () :=
  ⟨[], x.positions.erase f.name, x.resolved.insert f.name f.folded, x.cyclic, x.problems⟩

def started (system : UnitSystem) (x : Expansion ()) (n : String) : Expansion () :=
  ⟨[.start n (system.definition n)], x.positions.insert n 0, x.resolved, x.cyclic, x.problems⟩

variable {system : UnitSystem} {span : Span} {x y : Expansion ()}

theorem mem_chain {n : String} : n ∈ x.chain ↔ ∃ f ∈ x.frames, f.name = n := by
  simp [chain]

/-! ### What only grows -/

/-- Names found on cycles and problems are only added. -/
structure Grows (x y : Expansion ()) : Prop where
  cyclic : x.cyclic ⊆ y.cyclic
  problems : x.problems ⊆ y.problems

theorem Grows.refl (x : Expansion ()) : Grows x x := ⟨List.Subset.refl _, List.Subset.refl _⟩

theorem Grows.trans {z : Expansion ()} (h : Grows x y) (h' : Grows y z) : Grows x z :=
  ⟨List.Subset.trans h.cyclic h'.cyclic, List.Subset.trans h.problems h'.problems⟩

theorem Move.grows (hm : Move system span x y) : Grows x y := by
  cases hm with
  | leave | descend => exact ⟨List.Subset.refl _, List.Subset.refl _⟩
  | settle hx hp hs =>
    cases hs with
    | known => exact ⟨List.Subset.refl _, List.Subset.refl _⟩
    | empty => exact ⟨List.Subset.refl _, List.subset_append_left _ _⟩
    | closing => exact ⟨List.subset_cons_self _ _, List.subset_append_left _ _⟩

/-! ### Positions -/

/-- The positions are the places of the names on the stack. -/
def Indexed (x : Expansion ()) : Prop :=
  ∀ n i, x.positions.get? n = some i ↔ x.chain[i]? = some n

theorem Indexed.initial : Indexed .initial := by
  intro n i
  simp [Expansion.initial, chain]

theorem Indexed.nodup (h : x.Indexed) : x.chain.Nodup := by
  rw [List.nodup_iff_getElem?_ne_getElem?]
  intro i j hij hj hne
  rw [List.getElem?_eq_getElem hj] at hne
  have hi := (h _ _).mpr hne
  rw [(h _ _).mpr (List.getElem?_eq_getElem hj)] at hi
  cases hi
  exact Nat.lt_irrefl _ hij

theorem Indexed.get?_eq_none_iff (h : x.Indexed) {n : String} : x.positions.get? n = none ↔ n ∉ x.chain := by
  rw [Option.eq_none_iff_forall_ne_some, List.mem_iff_getElem?, not_exists]
  exact forall_congr' fun i => not_congr (h n i)

/-- What is cut off at the position of a name is what stands in front of it. -/
theorem Indexed.drop_chain (h : x.Indexed) {n : String} {i : Nat} (hi : x.positions.get? n = some i) :
    x.chain.drop i = x.chain.dropWhile (fun m => m != n) := by
  have hget := (h n i).mp hi
  have hnodup := h.nodup
  clear hi
  generalize x.chain = names at hget hnodup
  induction names generalizing i with
  | nil => cases hget
  | cons m rest ih =>
    obtain ⟨hm, hrest⟩ := List.nodup_cons.mp hnodup
    cases i with
    | zero =>
      obtain rfl : m = n := Option.some.inj hget
      simp
    | succ i =>
      have hne : m ≠ n := fun he => hm (he ▸ List.mem_of_getElem? hget)
      simpa [hne] using ih hget hrest

theorem Indexed.congr (h : x.Indexed) (hp : y.positions = x.positions)
    (hf : y.frames.map Frame.name = x.frames.map Frame.name) : y.Indexed := by
  intro n i
  rw [hp, h n i, chain, chain, hf]

/-- A new name stands behind those that are there. -/
theorem getElem?_append_singleton_iff {names : List String} {a n : String} (ha : a ∉ names) (i : Nat) :
    (names ++ [a])[i]? = some n ↔ if n = a then i = names.length else names[i]? = some n := by
  rcases Nat.lt_trichotomy i names.length with hi | rfl | hi
  · rw [List.getElem?_append_left hi]
    split
    · next hn =>
      have hno : names[i]? ≠ some n := fun he => ha (hn ▸ List.mem_of_getElem? he)
      simp [hno, Nat.ne_of_lt hi]
    · rfl
  · by_cases hn : n = a <;> simp [hn, Ne.symm]
  · have hsome : (names ++ [a])[i]? = none := List.getElem?_eq_none (by simp; omega)
    have hnone : names[i]? = none := List.getElem?_eq_none (by omega)
    rw [hsome, hnone]
    split <;> simp [Nat.ne_of_gt hi]

/-- A name that is not on the stack is put on it. -/
theorem Indexed.push (h : x.Indexed) {f : Frame} (hf : f.name ∉ x.chain)
    (hp : y.positions = x.positions.insert f.name x.frames.length) (hy : y.frames = f :: x.frames) : y.Indexed := by
  have hchain : y.chain = x.chain ++ [f.name] := by simp [chain, hy]
  have hlength : x.chain.length = x.frames.length := by simp [chain]
  intro n i
  rw [hp, NameMap.get?_insert, hchain, getElem?_append_singleton_iff hf, hlength]
  by_cases hn : n = f.name
  · simp [hn, eq_comm]
  · simp only [if_neg hn, h n i]

/-- The innermost name is taken off the stack. -/
theorem Indexed.pop (h : x.Indexed) {f : Frame} {rest : List Frame} (hx : x.frames = f :: rest)
    (hp : y.positions = x.positions.erase f.name) (hy : y.frames.map Frame.name = rest.map Frame.name) :
    y.Indexed := by
  have hchain : x.chain = y.chain ++ [f.name] := by simp [chain, hx, hy]
  have hnodup := h.nodup
  rw [hchain, List.nodup_append] at hnodup
  have hf : f.name ∉ y.chain := fun hm => hnodup.2.2 _ hm _ (List.mem_singleton.mpr rfl) rfl
  intro n i
  rw [hp, NameMap.get?_erase]
  by_cases hn : n = f.name
  · have hno : y.chain[i]? ≠ some n := fun he => hf (hn ▸ List.mem_of_getElem? he)
    simp [hn ▸ hno, hn]
  · rw [if_neg hn, h n i, hchain, getElem?_append_singleton_iff hf, if_neg hn]

/-- **Every move keeps the positions right.** -/
theorem Indexed.move (h : x.Indexed) (hm : Move system span x y) : y.Indexed := by
  cases hm with
  | leave hx hp => exact h.pop hx rfl (by simp)
  | settle hx hp hs => exact h.congr rfl (by simp [hx])
  | @descend f rest n e more hx hp hn hf =>
    have hadv : Indexed ⟨f.advance e more :: rest, x.positions, x.resolved, x.cyclic, x.problems⟩ :=
      h.congr rfl (by simp [hx])
    refine hadv.push (f := .start n (system.definition n)) (fun hmem => hf.unchained ?_) rfl rfl
    simpa [chain, hx] using hmem

theorem Indexed.moves (h : x.Indexed) (hm : ReflTransGen (Move system span) x y) : y.Indexed := by
  induction hm with
  | refl => exact h
  | tail _ hlast ih => exact ih.move hlast

structure Idle (x : Expansion ()) : Prop where
  frames_eq : x.frames = []
  positions_eq : x.positions = .empty

theorem Idle.initial : Idle .initial := ⟨rfl, rfl⟩

theorem Idle.indexed (h : x.Idle) : x.Indexed := by
  intro n i
  simp [h.positions_eq, chain, h.frames_eq]

theorem Indexed.idle (h : x.Indexed) (hx : x.frames = []) : x.Idle := by
  refine ⟨hx, NameMap.ext_get? fun n => ?_⟩
  rw [NameMap.get?_empty, h.get?_eq_none_iff, chain, hx]
  exact List.not_mem_nil

theorem Indexed.finish (h : x.Indexed) {f : Frame} (hx : x.frames = [f]) : (x.finish f).Idle :=
  (h.pop hx rfl rfl).idle rfl

/-! ### Steps -/

theorem enter_cases (hi : x.Indexed) (system : UnitSystem) (span : Span) (n : String) :
    (∃ d, x.Known system n d ∧ x.enter system span n = (some d, x)) ∨
    (n ∉ x.cyclic ∧ n ∈ x.chain ∧ x.enter system span n =
      (some (.base n 1), { x with
        cyclic := n :: x.cyclic
        problems := x.problems ++ [⟨.circularReferences, span, .cycle n (x.cyclePath n)⟩] })) ∨
    (x.Fresh system n ∧ x.enter system span n = (none, x.push n (system.definition n))) := by
  unfold enter
  by_cases hc : n ∈ x.cyclic
  · exact .inl ⟨_, .reported hc, if_pos hc⟩
  rw [if_neg hc]
  cases hp : x.positions.get? n with
  | some i =>
    have hm : n ∈ x.chain := List.mem_of_getElem? ((hi n i).mp hp)
    refine .inr (.inl ⟨hc, hm, ?_⟩)
    show (some (Dimension.base n 1), x.reportCycle span n i) = _
    rw [reportCycle, hi.drop_chain hp]
    rfl
  | none =>
    have hm : n ∉ x.chain := hi.get?_eq_none_iff.mp hp
    cases hr : x.resolved.get? n with
    | some d => exact .inl ⟨d, .remembered hc hr, rfl⟩
    | none =>
      by_cases hb : system.definition n = .base
      · exact .inl ⟨_, .base hb, by rw [hb]⟩
      · refine .inr (.inr ⟨⟨hc, hm, hr, hb⟩, ?_⟩)
        cases hd : system.definition n with
        | base => exact absurd hd hb
        | synonym target => rfl
        | product factors => rfl

/-- A step that leaves something to do is a move. -/
theorem move_of_step (hi : x.Indexed) {f : Frame} {rest : List Frame} (hx : x.frames = f :: rest)
    (h : x.step system span f rest = (none, y)) : Move system span x y := by
  unfold step at h
  cases hp : f.pending with
  | nil =>
    simp only [hp] at h
    cases rest with
    | nil => cases h
    | cons g rest => cases h; exact .leave hx hp
  | cons p more =>
    obtain ⟨n, e⟩ := p
    simp only [hp] at h
    by_cases hn : n = ""
    · subst hn
      cases h
      exact .settle hx hp .empty
    · rw [if_neg hn] at h
      -- the chain of the state in which the name is entered is the one before the step
      have hnext : Indexed { x with frames := f.advance e more :: rest } := hi.congr rfl (by simp [hx])
      have hchain : chain ({ x with frames := f.advance e more :: rest } : Expansion ()) = x.chain := by
        simp [chain, hx]
      simp only [Frame.advance] at hnext hchain
      rcases enter_cases hnext system span n with ⟨d, hk, he⟩ | ⟨hc, hm, he⟩ | ⟨hf, he⟩ <;> rw [he] at h <;> cases h
      · refine .settle hx hp (.known hn ?_)
        cases hk with
        | reported hc => exact .reported hc
        | remembered hc hr => exact .remembered hc hr
        | base hb => exact .base hb
      · have hpath : cyclePath { x with frames := { f with pending := more, exponent := e } :: rest } n =
            x.cyclePath n := by
          rw [cyclePath, hchain, cyclePath]
        have hs : x.Settles system span f n _ _ _ := .closing hn hc (hchain ▸ hm)
        rw [← hpath] at hs
        exact .settle hx hp hs
      · exact .descend hx hp hn ⟨hf.unreported, hchain ▸ hf.unchained, hf.unresolved, hf.compound⟩

/-- A step that leaves nothing to do finishes the outermost definition. -/
theorem finish_of_step {f : Frame} {rest : List Frame} {d : Dimension}
    (h : x.step system span f rest = (some d, y)) :
    rest = [] ∧ f.pending = [] ∧ d = f.folded ∧ y = x.finish f := by
  unfold step at h
  cases hp : f.pending with
  | nil =>
    simp only [hp] at h
    cases rest with
    | nil => cases h; exact ⟨rfl, rfl, rfl, rfl⟩
    | cons g rest => cases h
  | cons p more =>
    obtain ⟨n, e⟩ := p
    simp only [hp] at h
    split at h
    · cases h
    · split at h <;> cases h

theorem Move.frames_ne_nil (h : Move system span x y) : y.frames ≠ [] := by
  cases h <;> exact List.cons_ne_nil _ _

/-- The outermost definition stays the same. -/
theorem Move.getLast?_names (h : Move system span x y) :
    (y.frames.map Frame.name).getLast? = (x.frames.map Frame.name).getLast? := by
  cases h with
  | leave hx hp => simp [hx]
  | settle hx hp hs => simp [hx]
  | descend hx hp hn hf => simp [hx]

theorem getLast?_names_of_moves (h : ReflTransGen (Move system span) x y) :
    (y.frames.map Frame.name).getLast? = (x.frames.map Frame.name).getLast? := by
  induction h with
  | refl => rfl
  | tail _ hlast ih => rw [hlast.getLast?_names, ih]

/-! ### Runs -/

section

variable {γ δ : Type} [Reporting γ δ] {context : γ} {x y : Expansion context}

theorem run_of_frames_eq_nil (hx : x.frames = []) : x.run system span = (.dimensionless, x) := by
  rw [run]
  split
  · rfl
  · next hcons => rw [hx] at hcons; cases hcons

theorem run_of_step_eq_some {f : Frame} {rest : List Frame} {d : Dimension} (hx : x.frames = f :: rest)
    (h : x.step system span f rest = (some d, y)) : x.run system span = (d, y) := by
  rw [run]
  split
  · next hnil => rw [hx] at hnil; cases hnil
  · next g rest' hcons =>
    rw [hx] at hcons
    cases hcons
    split
    · next hstep => rw [h] at hstep; cases hstep; rfl
    · next hstep => rw [h] at hstep; cases hstep

theorem run_of_step_eq_none {f : Frame} {rest : List Frame} (hx : x.frames = f :: rest)
    (h : x.step system span f rest = (none, y)) : x.run system span = y.run system span := by
  rw [run]
  split
  · next hnil => rw [hx] at hnil; cases hnil
  · next g rest' hcons =>
    rw [hx] at hcons
    cases hcons
    split
    · next hstep => rw [h] at hstep; cases hstep
    · next hstep => rw [h] at hstep; cases hstep; rfl

end

/-- **A run is a series of moves** that ends with the outermost definition alone on the stack, all its references
resolved; that definition is then finished. -/
theorem exists_moves_run (system : UnitSystem) (span : Span) (x : Expansion ()) (hi : x.Indexed) (hx : x.frames ≠ []) :
    ∃ y f, ReflTransGen (Move system span) x y ∧ y.frames = [f] ∧ f.pending = [] ∧
      x.run system span = (f.folded, y.finish f) := by
  induction x using run.induct system span with
  | case1 x hnil => exact absurd hnil hx
  | case2 x f rest hfr d y hstep =>
    obtain ⟨rfl, hp, rfl, rfl⟩ := finish_of_step hstep
    refine ⟨x, f, .refl, hfr, hp, ?_⟩
    exact run_of_step_eq_some hfr hstep
  | case3 x f rest hfr y hstep ih =>
    have hmove := move_of_step hi hfr hstep
    obtain ⟨z, g, hz, hzf, hp, hrun⟩ := ih (hi.move hmove) hmove.frames_ne_nil
    refine ⟨z, g, .head hmove hz, hzf, hp, ?_⟩
    rw [run_of_step_eq_none hfr hstep, hrun]

theorem Idle.push_eq_started (h : x.Idle) (system : UnitSystem) (n : String) :
    x.push n (system.definition n) = x.started system n := by
  rw [push, started, h.frames_eq]
  rfl

theorem Idle.indexed_started (h : x.Idle) (system : UnitSystem) (n : String) : (x.started system n).Indexed := by
  refine h.indexed.push (f := .start n (system.definition n)) ?_ ?_ ?_
  · simp [chain, h.frames_eq]
  · simp [started, h.frames_eq]
  · simp [started, h.frames_eq]

/-- **Resolution of a name.** Its dimension is known at once, or its definition is expanded by moves. -/
theorem resolveName_cases (hx : x.Idle) (system : UnitSystem) (span : Span) (n : String) :
    (∃ d, x.Known system n d ∧ x.resolveName system span n = (d, x)) ∨
    (x.Fresh system n ∧ ∃ y f, ReflTransGen (Move system span) (x.started system n) y ∧ y.frames = [f] ∧
      f.name = n ∧ f.pending = [] ∧ x.resolveName system span n = (f.folded, y.finish f)) := by
  have hchain : n ∉ x.chain := by simp [chain, hx.frames_eq]
  rcases enter_cases hx.indexed system span n with ⟨d, hk, he⟩ | ⟨-, hm, -⟩ | ⟨hf, he⟩
  · exact .inl ⟨d, hk, by simp [resolveName, he]⟩
  · exact absurd hm hchain
  · rw [hx.push_eq_started] at he
    obtain ⟨y, f, hy, hyf, hp, hrun⟩ :=
      exists_moves_run system span (x.started system n) (hx.indexed_started system n) (List.cons_ne_nil _ _)
    have hname : f.name = n := by
      simpa [hyf, started] using getLast?_names_of_moves hy
    refine .inr ⟨hf, y, f, hy, hyf, hname, hp, ?_⟩
    simp only [resolveName, he]
    exact hrun

/-- After a name is resolved nothing is under expansion. -/
theorem Idle.resolveName (hx : x.Idle) (system : UnitSystem) (span : Span) (n : String) :
    (x.resolveName system span n).2.Idle := by
  rcases resolveName_cases hx system span n with ⟨d, -, he⟩ | ⟨-, y, f, hy, hyf, -, -, he⟩ <;> rw [he]
  · exact hx
  · exact ((hx.indexed_started system n).moves hy).finish hyf

end Expansion

/-! ### Terms -/

namespace Evaluation

/-- The product of the terms of an expression and the state of the expansion after them. -/
def after (system : UnitSystem) (e : Expression) : Dimension × Expansion () :=
  e.foldl (addTerm system) (.dimensionless, .initial)

theorem after_append_singleton (system : UnitSystem) (e : Expression) (t : Term) :
    after system (e ++ [t]) = addTerm system (after system e) t := by
  simp [after]

/-- Between two terms nothing is under expansion. -/
theorem idle_after (system : UnitSystem) (e : Expression) : (after system e).2.Idle := by
  induction e using List.reverseRecOn with
  | nil => exact .initial
  | append_singleton e t ih =>
    rw [after_append_singleton]
    exact ih.resolveName system t.span t.name

theorem of_eq_after (system : UnitSystem) (e : Expression) :
    of system e = ⟨(after system e).1, (after system e).2.problems⟩ := rfl

end Evaluation
end Dimensional
