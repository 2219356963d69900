import Dimensional.Proofs.Resolution.Search
import Mathlib.Data.List.Perm.Subperm

/-!
# The history of an evaluation

The states that an evaluation passes through, in order (`Evaluation.history`), and the names whose definitions it puts
on the stack on the way (`descents`). Two states that follow each other are related by `Advance`: a move, the start or the
end of the expansion of a term, or a term that needs none. What every advance preserves holds of the whole history.

The main statement is `history_coherent`: in every state the stack, the positions and the memory fit together, every
definition is put on the stack at most once, and the length of the history is the number of terms and references met.
-/

namespace Dimensional

open Relation (ReflTransGen)

/-! ### The reference that a frame is at -/

/-- The reference that the frame went on to last. -/
def Frame.current? (f : Frame) : Option String :=
  (f.definition.references.take (f.definition.references.length - f.pending.length)).getLast?

theorem Frame.Stands.current?_eq {system : UnitSystem} {Folds : Folding} {f : Frame} {n : String}
    (h : f.Stands system Folds (some n)) : f.current? = some n := by
  obtain ⟨done, he, -⟩ := h.place
  have href : f.definition.references = (done.map Prod.fst ++ [n]) ++ f.pending.map Prod.fst := by
    simp [Definition.references, h.definition_eq, he]
  have hlength : f.definition.references.length - f.pending.length = (done.map Prod.fst ++ [n]).length := by
    simp [href]
    omega
  rw [current?, hlength, href, List.take_left, List.getLast?_append]
  rfl

/-- Each frame is at the name of the frame above it. -/
theorem Stack.isChain_current? {system : UnitSystem} {Folds : Folding} {current : Option String} {frames : List Frame}
    (h : Stack system Folds current frames) : frames.IsChain fun f g => g.current? = some f.name := by
  induction frames generalizing current with
  | nil => exact .nil
  | cons f rest ih =>
    cases rest with
    | nil => exact .singleton _
    | cons g rest => exact .cons_cons h.2.1.current?_eq (ih h.2)

namespace Expansion

variable {system : UnitSystem} {span : Span} {x y z : Expansion ()} {f : Frame} {rest : List Frame} {n : String}

/-! ### States of a run -/

/-- The states in which a run takes its steps, from `x` on. -/
def visits (system : UnitSystem) (span : Span) (x : Expansion ()) : List (Expansion ()) :=
  x ::
    match _hx : x.frames with
    | [] => []
    | f :: rest =>
      match _h : x.step system span f rest with
      | (some _, _) => []
      | (none, y) => visits system span y
termination_by ((x.untouched system).length, x.work)
decreasing_by exact step_decreases _hx _h

theorem visits_of_step_eq_some {d : Dimension} (hx : x.frames = f :: rest)
    (h : x.step system span f rest = (some d, y)) : x.visits system span = [x] := by
  rw [visits]
  split
  · rfl
  · next g rest' hcons =>
    rw [hx] at hcons
    cases hcons
    split
    · rfl
    · next hstep => rw [h] at hstep; cases hstep

theorem visits_of_step_eq_none (hx : x.frames = f :: rest) (h : x.step system span f rest = (none, y)) :
    x.visits system span = x :: y.visits system span := by
  rw [visits]
  split
  · next hnil => rw [hx] at hnil; cases hnil
  · next g rest' hcons =>
    rw [hx] at hcons
    cases hcons
    split
    · next hstep => rw [h] at hstep; cases hstep
    · next hstep => rw [h] at hstep; cases hstep; rfl

theorem exists_visits_eq_cons (system : UnitSystem) (span : Span) (x : Expansion ()) :
    ∃ xs, x.visits system span = x :: xs := by
  rw [visits]
  exact ⟨_, rfl⟩

/-- The states in which a term is worked on: none if its dimension is known at once. -/
def visitsOf (system : UnitSystem) (t : Term) (x : Expansion ()) : List (Expansion ()) :=
  match x.enter system t.span t.name with
  | (some _, _) => []
  | (none, y) => y.visits system t.span

/-! ### Advances -/

/-- What can happen between two states of an evaluation that follow each other. -/
inductive Advance (system : UnitSystem) (x : Expansion ()) : Expansion () → Prop
  | move {span : Span} {y : Expansion ()} (hm : Move system span x y) : Advance system x y
  | start {n : String} (hx : x.Idle) (hf : x.Fresh system n) : Advance system x (x.started system n)
  | finish {f : Frame} (hx : x.frames = [f]) (hp : f.pending = []) : Advance system x (x.finish f)
  | stay (hx : x.Idle) : Advance system x x

theorem Indexed.advance (h : x.Indexed) (ha : Advance system x y) : y.Indexed := by
  cases ha with
  | move hm => exact h.move hm
  | start hx hf => exact hx.indexed_started system _
  | finish hx hp => exact (h.finish hx).indexed
  | stay hx => exact h

theorem Searched.advance (h : Searched system none x) (ha : Advance system x y) : Searched system none y := by
  cases ha with
  | move hm => exact h.move hm
  | @start n hx hf =>
    have hpush := (h.of_frames_eq_nil hx.frames_eq (some n)).push hf (x.positions.insert n 0)
    rwa [hx.frames_eq] at hpush
  | finish hx hp => exact (h.pop hx hp _ _).of_frames_eq_nil rfl none
  | stay hx => exact h

/-- A run that has something to do advances until it is over. -/
theorem isChain_visits (system : UnitSystem) (span : Span) (hi : x.Indexed) (hx : x.frames ≠ []) :
    (x.visits system span ++ [(x.run system span).2]).IsChain (Advance system) := by
  induction x using run.induct system span with
  | case1 x hnil => exact absurd hnil hx
  | case2 x f rest hfr d y hstep =>
    obtain ⟨rfl, hp, rfl, rfl⟩ := finish_of_step hstep
    rw [visits_of_step_eq_some hfr hstep, run_of_step_eq_some hfr hstep]
    exact .cons_cons (.finish hfr hp) (.singleton _)
  | case3 x f rest hfr y hstep ih =>
    have hmove := move_of_step hi hfr hstep
    have hrest := ih (hi.move hmove) hmove.frames_ne_nil
    obtain ⟨ys, hys⟩ := exists_visits_eq_cons system span y
    rw [visits_of_step_eq_none hfr hstep, run_of_step_eq_none hfr hstep]
    rw [hys] at hrest ⊢
    exact .cons_cons (.move hmove) hrest

/-- The steps of a run are taken on a stack that is not empty. -/
theorem frames_ne_nil_of_mem_visits (hi : x.Indexed) (hx : x.frames ≠ []) (hy : y ∈ x.visits system span) :
    y.frames ≠ [] := by
  induction x using run.induct system span with
  | case1 x hnil => exact absurd hnil hx
  | case2 x f rest hfr d z hstep =>
    rw [visits_of_step_eq_some hfr hstep, List.mem_singleton] at hy
    exact hy ▸ hx
  | case3 x f rest hfr z hstep ih =>
    have hmove := move_of_step hi hfr hstep
    rw [visits_of_step_eq_none hfr hstep] at hy
    rcases List.mem_cons.mp hy with rfl | hy
    · exact hx
    · exact ih (hi.move hmove) hmove.frames_ne_nil hy

/-- Resolving a term advances from the state in front of it to the one behind it. -/
theorem isChain_visitsOf (hx : x.Idle) (system : UnitSystem) (t : Term) :
    (x :: x.visitsOf system t ++ [(x.resolveName system t.span t.name).2]).IsChain (Advance system) := by
  rcases enter_cases hx.indexed system t.span t.name with ⟨d, hk, he⟩ | ⟨-, hm, -⟩ | ⟨hf, he⟩
  · simp only [visitsOf, resolveName, he]
    exact .cons_cons (.stay hx) (.singleton _)
  · exact absurd hm (by simp [chain, hx.frames_eq])
  · rw [hx.push_eq_started] at he
    have hrun := isChain_visits system t.span (hx.indexed_started system t.name) (List.cons_ne_nil _ _)
    obtain ⟨ys, hys⟩ := exists_visits_eq_cons system t.span (x.started system t.name)
    simp only [visitsOf, resolveName, he]
    rw [hys] at hrun ⊢
    exact .cons_cons (.start hx hf) hrun

theorem frames_ne_nil_of_mem_visitsOf (hx : x.Idle) {t : Term} (hy : y ∈ x.visitsOf system t) : y.frames ≠ [] := by
  rcases enter_cases hx.indexed system t.span t.name with ⟨d, hk, he⟩ | ⟨-, hm, -⟩ | ⟨hf, he⟩
  · simp [visitsOf, he] at hy
  · exact absurd hm (by simp [chain, hx.frames_eq])
  · rw [hx.push_eq_started] at he
    simp only [visitsOf, he] at hy
    exact frames_ne_nil_of_mem_visits (hx.indexed_started system t.name) (List.cons_ne_nil _ _) hy

/-! ### Coherence -/

structure Coherent (x : Expansion ()) : Prop where
  distinct : (x.frames.map Frame.name).Nodup
  /-- The positions are the places of exactly the names on the stack. -/
  indexed : ∀ n i, x.positions.get? n = some i ↔ x.chain[i]? = some n
  inside : ∀ n i, x.positions.get? n = some i → i < x.frames.length
  /-- What is under expansion is not remembered yet. -/
  unremembered : ∀ n ∈ x.chain, x.resolved.get? n = none
  /-- A definition is expanded for the reference that the one below it went on to last. -/
  linked : x.frames.IsChain fun f g => g.current? = some f.name

theorem Searched.coherent {current : Option String} (h : Searched system current x) (hi : x.Indexed) : x.Coherent where
  distinct := h.nodup
  indexed := hi
  inside n i hn := by
    obtain ⟨hlt, -⟩ := List.getElem?_eq_some_iff.mp ((hi n i).mp hn)
    simpa [chain] using hlt
  unremembered n hn := by
    obtain ⟨f, hf, rfl⟩ := mem_chain.mp hn
    simpa [NameMap.contains] using h.unfinished f hf
  linked := h.stack.isChain_current?

/-- Along advances from a state that fits together all states do. -/
theorem coherent_of_mem {xs : List (Expansion ())} (hxs : (x :: xs).IsChain (Advance system)) (hi : x.Indexed)
    (hs : Searched system none x) (hy : y ∈ x :: xs) : y.Coherent := by
  induction xs generalizing x with
  | nil => exact List.mem_singleton.mp hy ▸ hs.coherent hi
  | cons z xs ih =>
    obtain ⟨ha, hrest⟩ := List.isChain_cons_cons.mp hxs
    rcases List.mem_cons.mp hy with rfl | hy
    · exact hs.coherent hi
    · exact ih hrest (hi.advance ha) (hs.advance ha) hy

/-! ### Descents -/

/-- The name whose definition is put on the stack between two states. -/
def descent? (x y : Expansion ()) : Option String :=
  if x.frames.length < y.frames.length then y.frames.head?.map Frame.name else none

theorem descent?_eq_none (h : y.frames.length ≤ x.frames.length) : x.descent? y = none :=
  if_neg (Nat.not_lt.mpr h)

theorem descent?_eq_some {d : Definition} (hy : y.frames = .start n d :: rest)
    (h : rest.length = x.frames.length) : x.descent? y = some n := by
  simp [descent?, hy, h]

def descents : List (Expansion ()) → List String
  | x :: y :: rest => (x.descent? y).toList ++ descents (y :: rest)
  | _ => []

theorem descents_append (xs ys : List (Expansion ())) (x : Expansion ()) :
    descents (xs ++ x :: ys) = descents (xs ++ [x]) ++ descents (x :: ys) := by
  induction xs with
  | nil => rfl
  | cons z xs ih =>
    cases xs with
    | nil =>
      show (z.descent? x).toList ++ descents (x :: ys) = (z.descent? x).toList ++ [] ++ descents (x :: ys)
      rw [List.append_nil]
    | cons w xs =>
      show (z.descent? w).toList ++ descents (w :: xs ++ x :: ys) =
        (z.descent? w).toList ++ descents (w :: xs ++ [x]) ++ descents (x :: ys)
      rw [ih, List.append_assoc]

theorem Fresh.not_touched (hf : x.Fresh system n) (hi : x.Indexed) : ¬ x.touched n := by
  have hp := hi.get?_eq_none_iff.mpr hf.unchained
  simp [touched, NameMap.contains, hp, hf.unresolved]

/-- **An advance puts at most one definition on the stack**, that of a fresh name, and what is touched stays touched. -/
theorem Advance.descent_cases (ha : Advance system x y) :
    (x.descent? y = none ∧ ∀ m, x.touched m → y.touched m) ∨
    ∃ n, x.descent? y = some n ∧ x.Fresh system n ∧ ∀ m, y.touched m ↔ m = n ∨ x.touched m := by
  cases ha with
  | stay hx => exact .inl ⟨descent?_eq_none (Nat.le_refl _), fun m hm => hm⟩
  | @finish f hx hp =>
    refine .inl ⟨descent?_eq_none (Nat.zero_le _), fun m hm => ?_⟩
    exact (touched_leave x f [] m).mpr (.inr hm)
  | @start n hx hf =>
    rw [← hx.push_eq_started]
    exact .inr ⟨n, descent?_eq_some rfl rfl, hf, fun m => touched_push _ _ _ _⟩
  | move hm =>
    cases hm with
    | @leave f g rest hx hp =>
      refine .inl ⟨descent?_eq_none (by simp [hx]), fun m hm => ?_⟩
      exact (touched_leave x f rest m).mpr (.inr hm)
    | settle hx hp hs => exact .inl ⟨descent?_eq_none (by simp [hx]), fun m hm => hm⟩
    | @descend f rest n e more hx hp hn hf =>
      have hlength : rest.length + 1 = x.frames.length := by simp [hx]
      exact .inr ⟨n, descent?_eq_some rfl hlength, hf, fun m => hlength ▸ touched_push x n (system.definition n) m⟩

/-- The names that are put on the stack are new, compound, and different from each other. -/
theorem descents_of_isChain {xs : List (Expansion ())} (hxs : (x :: xs).IsChain (Advance system)) (hi : x.Indexed) :
    (descents (x :: xs)).Nodup ∧ ∀ n ∈ descents (x :: xs), ¬ x.touched n ∧ system.definition n ≠ .base := by
  induction xs generalizing x with
  | nil => exact ⟨.nil, fun n hn => absurd hn List.not_mem_nil⟩
  | cons y xs ih =>
    obtain ⟨ha, hrest⟩ := List.isChain_cons_cons.mp hxs
    obtain ⟨hnodup, hnew⟩ := ih hrest (hi.advance ha)
    rcases ha.descent_cases with ⟨hd, hkeep⟩ | ⟨n, hd, hf, htouched⟩
    · simp only [descents, hd, Option.toList_none, List.nil_append]
      exact ⟨hnodup, fun m hm => ⟨fun hx => (hnew m hm).1 (hkeep m hx), (hnew m hm).2⟩⟩
    · simp only [descents, hd, Option.toList_some, List.singleton_append, List.nodup_cons]
      refine ⟨⟨fun hmem => (hnew n hmem).1 ((htouched n).mpr (.inl rfl)), hnodup⟩, fun m hm => ?_⟩
      rcases List.mem_cons.mp hm with rfl | hm
      · exact ⟨hf.not_touched hi, hf.compound⟩
      · exact ⟨fun hx => (hnew m hm).1 ((htouched m).mpr (.inr hx)), (hnew m hm).2⟩

/-! ### Steps -/

/-- The number of steps that the definitions of some names take: one for each reference of a definition, and one to take
it off the stack. -/
def cost (system : UnitSystem) (names : List String) : Nat :=
  names.foldr (fun n k => (system.definition n).references.length + 1 + k) 0

@[simp] theorem cost_nil (system : UnitSystem) : cost system [] = 0 := rfl

@[simp] theorem cost_cons (system : UnitSystem) (n : String) (names : List String) :
    cost system (n :: names) = (system.definition n).references.length + 1 + cost system names := rfl

@[simp] theorem cost_append (system : UnitSystem) (names others : List String) :
    cost system (names ++ others) = cost system names + cost system others := by
  induction names with
  | nil => simp
  | cons n names ih =>
    simp only [List.cons_append, cost_cons, ih]
    omega

/-- A move does one step of the work, and adds that of the definition that it puts on the stack. -/
theorem Move.work_add_one (hm : Move system span x y) :
    y.work + 1 = x.work + cost system (x.descent? y).toList := by
  cases hm with
  | leave hx hp =>
    rw [descent?_eq_none (by simp [hx])]
    simp only [work, hx, hp, Frame.pending_absorb, List.foldr_cons, List.length_nil, Option.toList_none, cost_nil]
    omega
  | settle hx hp hs =>
    rw [descent?_eq_none (by simp [hx])]
    simp only [work, hx, hp, Frame.pending_absorb, Frame.advance, List.foldr_cons, List.length_cons, Option.toList_none,
      cost_nil]
    omega
  | descend hx hp hn hf =>
    rw [descent?_eq_some rfl (by simp [hx])]
    simp only [work, hx, hp, Frame.start, Frame.advance, Definition.references, List.foldr_cons, List.length_cons,
      List.length_map, Option.toList_some, cost_cons, cost_nil]
    omega

/-- **A run takes as many steps as there is work**, that of the definitions put on the stack on the way included. -/
theorem length_visits (system : UnitSystem) (span : Span) (hi : x.Indexed) (hx : x.frames ≠ []) :
    (x.visits system span).length =
      x.work + cost system (descents (x.visits system span ++ [(x.run system span).2])) := by
  induction x using run.induct system span with
  | case1 x hnil => exact absurd hnil hx
  | case2 x f rest hfr d y hstep =>
    obtain ⟨rfl, hp, rfl, rfl⟩ := finish_of_step hstep
    rw [visits_of_step_eq_some hfr hstep, run_of_step_eq_some hfr hstep]
    rw [List.singleton_append, descents, descent?_eq_none (Nat.zero_le _)]
    simp [descents, work, hfr, hp]
  | case3 x f rest hfr y hstep ih =>
    have hmove := move_of_step hi hfr hstep
    have hlength := ih (hi.move hmove) hmove.frames_ne_nil
    have hwork := hmove.work_add_one
    obtain ⟨ys, hys⟩ := exists_visits_eq_cons system span y
    rw [visits_of_step_eq_none hfr hstep, run_of_step_eq_none hfr hstep]
    rw [hys] at hlength ⊢
    simp only [List.cons_append, descents, cost_append, List.length_cons] at hlength ⊢
    omega

theorem length_visitsOf (hx : x.Idle) (system : UnitSystem) (t : Term) :
    (x.visitsOf system t).length =
      cost system (descents (x :: x.visitsOf system t ++ [(x.resolveName system t.span t.name).2])) := by
  rcases enter_cases hx.indexed system t.span t.name with ⟨d, hk, he⟩ | ⟨-, hm, -⟩ | ⟨hf, he⟩
  · simp [visitsOf, resolveName, he, descents, descent?_eq_none]
  · exact absurd hm (by simp [chain, hx.frames_eq])
  · rw [hx.push_eq_started] at he
    have hlength := length_visits system t.span (hx.indexed_started system t.name) (List.cons_ne_nil _ _)
    have hdescent : x.descent? (x.started system t.name) = some t.name :=
      descent?_eq_some rfl (by rw [hx.frames_eq])
    have hwork : (x.started system t.name).work = cost system [t.name] := by
      simp [work, started, Frame.start, Definition.references]
    obtain ⟨ys, hys⟩ := exists_visits_eq_cons system t.span (x.started system t.name)
    simp only [visitsOf, resolveName, he]
    rw [hlength, hys, hwork]
    simp only [List.cons_append, descents, hdescent, Option.toList_some, cost_cons, cost_nil, List.nil_append]

end Expansion

/-! ### Evaluations -/

namespace Evaluation

open Expansion

variable {system : UnitSystem} {x : Expansion ()}

/-- The states in which the terms `e` are resolved, from `x` on. -/
def historyFrom (system : UnitSystem) (x : Expansion ()) : Expression → List (Expansion ())
  | [] => [x]
  | t :: e => x :: x.visitsOf system t ++ historyFrom system (x.resolveName system t.span t.name).2 e

/-- The states that an evaluation passes through. -/
def history (system : UnitSystem) (e : Expression) : List (Expansion ()) :=
  historyFrom system .initial e

theorem exists_historyFrom_eq_cons (system : UnitSystem) (x : Expansion ()) (e : Expression) :
    ∃ xs, historyFrom system x e = x :: xs := by
  cases e with
  | nil => exact ⟨[], rfl⟩
  | cons t e => exact ⟨_, rfl⟩

/-- **A history consists of advances.** -/
theorem isChain_historyFrom (hx : x.Idle) (system : UnitSystem) (e : Expression) :
    (historyFrom system x e).IsChain (Advance system) := by
  induction e generalizing x with
  | nil => exact .singleton _
  | cons t e ih =>
    have hrest := ih (hx.resolveName system t.span t.name)
    obtain ⟨xs, hxs⟩ := exists_historyFrom_eq_cons system (x.resolveName system t.span t.name).2 e
    rw [hxs] at hrest
    rw [historyFrom, hxs]
    exact List.isChain_split.mpr ⟨isChain_visitsOf hx system t, hrest⟩

/-- **A history takes as many steps as there are terms**, and references and ends of the definitions expanded. -/
theorem length_historyFrom (hx : x.Idle) (e : Expression) :
    (historyFrom system x e).length =
      1 + e.length + cost system (descents (historyFrom system x e)) := by
  induction e generalizing x with
  | nil => rfl
  | cons t e ih =>
    have hrest := ih (hx.resolveName system t.span t.name)
    have hterm := length_visitsOf hx system t
    obtain ⟨xs, hxs⟩ := exists_historyFrom_eq_cons system (x.resolveName system t.span t.name).2 e
    rw [hxs] at hrest
    rw [historyFrom, hxs, descents_append]
    simp only [List.length_append, List.length_cons, cost_append] at hrest ⊢
    omega

theorem getLast?_historyFrom (system : UnitSystem) (x : Expansion ()) (d : Dimension) (e : Expression) :
    (historyFrom system x e).getLast? = some (e.foldl (addTerm system) (d, x)).2 := by
  induction e generalizing x d with
  | nil => rfl
  | cons t e ih =>
    obtain ⟨xs, hxs⟩ := exists_historyFrom_eq_cons system (x.resolveName system t.span t.name).2 e
    have hrest := ih (x.resolveName system t.span t.name).2
      (d.mulPow (x.resolveName system t.span t.name).1 t.exponent)
    rw [historyFrom, List.getLast?_append, hrest]
    rfl

/-- Different names with a definition are at most as many as there are definitions. -/
theorem length_le_of_compound {names : List String} (hnodup : names.Nodup)
    (h : ∀ n ∈ names, system.definition n ≠ .base) :
    names.length ≤ (system.entries.filter fun p => p.2 ≠ .base).length := by
  have hsub : names ⊆ (system.entries.filter fun p => p.2 ≠ .base).map Prod.fst := by
    intro n hn
    have hentry := UnitSystem.mem_entries_of_compound (h n hn)
    exact List.mem_map.mpr ⟨_, List.mem_filter.mpr ⟨hentry, decide_eq_true (h n hn)⟩, rfl⟩
  have hlength := (hnodup.subperm hsub).length_le
  rwa [List.length_map] at hlength

/-- **Every evaluation comes to an end, and expands each name at most once.** The history ends with the state that is
left, after as many steps as there are terms, and references and ends of the definitions that are put on the stack.
These are different names with a definition, so there are at most as many as definitions. In all states the stack, its
positions and the memory fit together, with every position on the stack. Between two terms nothing is under expansion,
and while a term is worked on the stack is never empty. -/
theorem history_coherent (system : UnitSystem) (e : Expression) :
    (history system e).getLast? = some (after system e).2 ∧
    (history system e).length = 1 + e.length + cost system (descents (history system e)) ∧
    (descents (history system e)).Nodup ∧
    (∀ n ∈ descents (history system e), system.definition n ≠ .base) ∧
    (descents (history system e)).length ≤ (system.entries.filter fun p => p.2 ≠ .base).length ∧
    (∀ x ∈ history system e, x.Coherent) ∧
    (∀ before, before <+: e → (after system before).2.Idle) ∧
    ∀ before t, before ++ [t] <+: e → ∀ x ∈ (after system before).2.visitsOf system t, x.frames ≠ [] := by
  have hidle : Idle .initial := .initial
  have hchain := isChain_historyFrom hidle system e
  obtain ⟨xs, hxs⟩ := exists_historyFrom_eq_cons system .initial e
  rw [hxs] at hchain
  obtain ⟨hnodup, hnew⟩ := descents_of_isChain hchain hidle.indexed
  have hcompound : ∀ n ∈ descents (history system e), system.definition n ≠ .base := by
    rw [history, hxs]
    exact fun n hn => (hnew n hn).2
  rw [← hxs] at hnodup
  refine ⟨getLast?_historyFrom system _ _ e, length_historyFrom hidle e, hnodup, hcompound,
    length_le_of_compound hnodup hcompound, ?_, fun before _ => idle_after system before, ?_⟩
  · rw [history, hxs]
    exact fun x hx => coherent_of_mem hchain hidle.indexed (.initial system) hx
  · intro before t _ x hx
    exact frames_ne_nil_of_mem_visitsOf (idle_after system before) hx

end Evaluation
end Dimensional
