import Dimensional.Expression.Term
import Dimensional.UnitSystem

/-!
# Expansion of names

A name is expanded by its definition, the names in the definition by theirs, and so on down to base units. The
definitions under expansion form a stack of frames, and the place of each name on the stack is kept beside it. Every
name is expanded at most once: its dimension is remembered, and a name that is reached while it is under expansion is
reported as a cycle and stands for itself from then on.

`Expansion.step` does one piece of work and `Expansion.run` repeats it until the stack is empty. It ends because a step
either takes a reference off a frame or starts to expand a name of the system that was not expanded before.
-/

namespace Dimensional

/-- A definition under expansion. -/
structure Frame where
  /-- The name that is being expanded. -/
  name : String
  definition : Definition
  /-- The references that are still to be resolved. -/
  pending : List (String × Exponent)
  /-- The exponent of the reference that is being resolved. -/
  exponent : Exponent
  /-- The product of the references resolved so far. -/
  units : Dimension
  /-- The dimension of the name that a synonym stands for, which it shares. -/
  shared : Option Dimension
deriving DecidableEq, Inhabited

namespace Frame

/-- The frame of a name none of whose references is resolved. -/
def start (name : String) (definition : Definition) : Frame :=
  ⟨name, definition, definition.factors, 1, .dimensionless, none⟩

/-- Take up the dimension of the current reference. -/
def absorb (f : Frame) (d : Dimension) : Frame :=
  match f.definition with
  | .synonym _ => { f with shared := some d }
  | _ => { f with units := f.units.mulPow d f.exponent }

/-- The dimension of the name, once all references are resolved. -/
def folded (f : Frame) : Dimension :=
  f.shared.getD f.units

/-- What is wrong with a definition that refers to the empty name. -/
def emptyReferenceText (f : Frame) : String :=
  match f.definition with
  | .synonym _ => "'" ++ f.name ++ "' is an alias of an empty name"
  | _ => "'" ++ f.name ++ "' refers to an empty unit name"

@[simp] theorem name_absorb (f : Frame) (d : Dimension) : (f.absorb d).name = f.name := by
  unfold absorb
  split <;> rfl

@[simp] theorem definition_absorb (f : Frame) (d : Dimension) : (f.absorb d).definition = f.definition := by
  unfold absorb
  split <;> rfl

@[simp] theorem pending_absorb (f : Frame) (d : Dimension) : (f.absorb d).pending = f.pending := by
  unfold absorb
  split <;> rfl

end Frame

/-- The state of expanding the terms of one expression in a context. -/
structure Expansion {γ δ : Type} [Reporting γ δ] (context : γ) where
  /-- The definitions under expansion, the innermost first. -/
  frames : List Frame
  /-- The places of the names under expansion, counted from the outermost. -/
  positions : NameMap Nat
  /-- The dimensions of the names whose expansion is finished. -/
  resolved : NameMap Dimension
  /-- The names found on a cycle. -/
  cyclic : List String
  problems : List δ
deriving DecidableEq, Inhabited

namespace Expansion

variable {γ δ : Type} [Reporting γ δ] {context : γ}

/-- Nothing is expanded or found yet. -/
def initial : Expansion context := ⟨[], NameMap.empty, NameMap.empty, [], []⟩

/-- The names under expansion, the outermost first. -/
def chain (x : Expansion context) : List String :=
  (x.frames.map Frame.name).reverse

/-- Report a problem at the place of the term that is being resolved. -/
def report (x : Expansion context) (id : MessageId) (span : Span) (detail : Detail) : Expansion context :=
  { x with problems := x.problems ++ [Reporting.report context ⟨id, span, detail⟩] }

/-- Report the cycle that is closed by a name, whose definition stands at the place `start` of the stack. -/
def reportCycle (x : Expansion context) (span : Span) (name : String) (start : Nat) : Expansion context :=
  let path := x.chain.drop start ++ [name]
  { x.report .circularReferences span (.cycle name path) with cyclic := name :: x.cyclic }

/-- Report that the innermost definition refers to the empty name. The unit that it defines stands for the reference. -/
def emptyReference (x : Expansion context) (span : Span) : Dimension × Expansion context :=
  match x.frames with
  | [] => (.dimensionless, x)
  | f :: _ => (.base f.name 1, x.report .internalError span (.malformed f.emptyReferenceText))

/-- Put the definition of a name on the stack. -/
def push (x : Expansion context) (name : String) (definition : Definition) : Expansion context :=
  { x with frames := .start name definition :: x.frames, positions := x.positions.insert name x.frames.length }

/-- Take the innermost definition `f` off the stack and remember its dimension. -/
def leave (x : Expansion context) (f : Frame) (rest : List Frame) : Expansion context :=
  { x with
    frames := rest
    positions := x.positions.erase f.name
    resolved := x.resolved.insert f.name f.folded }

/-- Start the expansion of a name: either its dimension is known at once, or its definition is put on the stack. -/
def enter (system : UnitSystem) (span : Span) (name : String) (x : Expansion context) :
    Option Dimension × Expansion context :=
  if name ∈ x.cyclic then (some (.base name 1), x)
  else
    match x.positions.get? name with
    | some start => (some (.base name 1), x.reportCycle span name start)
    | none =>
      match x.resolved.get? name with
      | some d => (some d, x)
      | none =>
        match system.definition name with
        | .base => (some (.base name 1), x)
        | definition => (none, x.push name definition)

/-- Hand the dimension of a reference to the innermost frame. -/
def absorb (x : Expansion context) (d : Dimension) : Expansion context :=
  match x.frames with
  | [] => x
  | f :: rest => { x with frames := f.absorb d :: rest }

/-- One piece of work on the innermost frame `f` above the frames `rest`. The dimension of the outermost name is
returned when its frame is finished. -/
def step (system : UnitSystem) (span : Span) (f : Frame) (rest : List Frame) (x : Expansion context) :
    Option Dimension × Expansion context :=
  match f.pending with
  | [] =>
    let left := x.leave f rest
    if rest.isEmpty then (some f.folded, left) else (none, left.absorb f.folded)
  | (name, e) :: more =>
    let x := { x with frames := { f with pending := more, exponent := e } :: rest }
    if name = "" then
      let (d, x) := x.emptyReference span
      (none, x.absorb d)
    else
      match x.enter system span name with
      | (some d, x) => (none, x.absorb d)
      | (none, x) => (none, x)

/-! ### Termination -/

/-- Whether a name is expanded or under expansion. -/
def touched (x : Expansion context) (name : String) : Bool :=
  x.positions.contains name || x.resolved.contains name

/-- The names of the system that are neither expanded nor under expansion. -/
def untouched (system : UnitSystem) (x : Expansion context) : List String :=
  system.names.filter fun n => !x.touched n

/-- The number of frames and of their references still to be resolved. -/
def work (x : Expansion context) : Nat :=
  x.frames.foldr (fun f k => f.pending.length + 1 + k) 0

theorem length_filter_le_of_imp {α : Type} {p q : α → Bool} (h : ∀ a, p a = true → q a = true) (l : List α) :
    (l.filter p).length ≤ (l.filter q).length := by
  induction l with
  | nil => simp
  | cons a l ih =>
    by_cases hp : p a = true
    · simpa [List.filter_cons, hp, h a hp] using ih
    · by_cases hq : q a = true
      · simpa [List.filter_cons, hp, hq] using Nat.le_succ_of_le ih
      · simpa [List.filter_cons, hp, hq] using ih

theorem length_filter_lt_of_imp {α : Type} {p q : α → Bool} (h : ∀ a, p a = true → q a = true) {l : List α} {a : α}
    (ha : a ∈ l) (hp : p a = false) (hq : q a = true) : (l.filter p).length < (l.filter q).length := by
  induction l with
  | nil => simp at ha
  | cons b l ih =>
    rcases List.mem_cons.mp ha with rfl | ha
    · simpa [List.filter_cons, hp, hq] using Nat.lt_succ_of_le (length_filter_le_of_imp h l)
    · by_cases hp' : p b = true
      · simpa [List.filter_cons, hp', h b hp'] using ih ha
      · by_cases hq' : q b = true
        · simpa [List.filter_cons, hp', hq'] using Nat.lt_succ_of_lt (ih ha)
        · simpa [List.filter_cons, hp', hq'] using ih ha

theorem touched_absorb (x : Expansion context) (d : Dimension) (n : String) : (x.absorb d).touched n = x.touched n := by
  unfold absorb
  split <;> rfl

theorem work_absorb (x : Expansion context) (d : Dimension) : (x.absorb d).work = x.work := by
  unfold absorb
  split
  · rfl
  · next h => simp [work, h]

theorem touched_push (x : Expansion context) (name : String) (d : Definition) (n : String) :
    (x.push name d).touched n = true ↔ n = name ∨ x.touched n = true := by
  by_cases hn : n = name <;> simp [touched, push, NameMap.contains, NameMap.get?_insert, hn]

theorem touched_leave (x : Expansion context) (f : Frame) (rest : List Frame) (n : String) :
    (x.leave f rest).touched n = true ↔ n = f.name ∨ x.touched n = true := by
  by_cases hn : n = f.name <;> simp [touched, leave, NameMap.contains, NameMap.get?_insert, NameMap.get?_erase, hn]

theorem untouched_le (system : UnitSystem) {x y : Expansion context} (h : ∀ n, x.touched n = true → y.touched n = true) :
    (y.untouched system).length ≤ (x.untouched system).length := by
  refine length_filter_le_of_imp (fun n hn => ?_) _
  cases hxn : x.touched n with
  | false => rfl
  | true => simp [h n hxn] at hn

/-- The innermost definition refers to the empty name. -/
theorem emptyReference_eq {x : Expansion context} {f : Frame} {rest : List Frame} (hx : x.frames = f :: rest)
    (span : Span) :
    x.emptyReference span = (.base f.name 1, x.report .internalError span (.malformed f.emptyReferenceText)) := by
  rw [emptyReference, hx]

/-- A dimension that is known at once leaves stack and memory as they are. -/
theorem enter_eq_some {system : UnitSystem} {span : Span} {name : String} {x y : Expansion context} {d : Dimension}
    (h : x.enter system span name = (some d, y)) :
    y.frames = x.frames ∧ y.positions = x.positions ∧ y.resolved = x.resolved := by
  unfold enter at h
  split at h
  · cases h; exact ⟨rfl, rfl, rfl⟩
  · split at h
    · cases h; exact ⟨rfl, rfl, rfl⟩
    · split at h
      · cases h; exact ⟨rfl, rfl, rfl⟩
      · split at h <;> cases h
        exact ⟨rfl, rfl, rfl⟩

/-- A definition is put on the stack for a name of the system that was not touched before. -/
theorem enter_eq_none {system : UnitSystem} {span : Span} {name : String} {x y : Expansion context}
    (h : x.enter system span name = (none, y)) :
    y = x.push name (system.definition name) ∧ name ∈ system.names ∧ x.touched name = false := by
  unfold enter at h
  split at h
  · cases h
  · split at h
    · cases h
    · next hp =>
      split at h
      · cases h
      · next hr =>
        split at h
        · cases h
        · next hd =>
          refine ⟨(Prod.mk.inj h).2.symm, ?_, ?_⟩
          · cases hg : system.get? name with
            | none => simp [UnitSystem.definition, hg] at hd
            | some v => exact List.mem_map.mpr ⟨(name, v), NameMap.get?_eq_some_iff.mp hg, rfl⟩
          · simp [touched, NameMap.contains, hp, hr]

/-- A step that does not finish does some of the work, or touches a new name of the system. -/
theorem step_decreases {system : UnitSystem} {span : Span} {f : Frame} {rest : List Frame} {x y : Expansion context}
    (hx : x.frames = f :: rest) (h : x.step system span f rest = (none, y)) :
    Prod.Lex (· < ·) (· < ·) ((y.untouched system).length, y.work) ((x.untouched system).length, x.work) := by
  have keep : (∀ n, x.touched n = true → y.touched n = true) → y.work < x.work →
      Prod.Lex (· < ·) (· < ·) ((y.untouched system).length, y.work) ((x.untouched system).length, x.work) := by
    intro ht hw
    rcases Nat.lt_or_eq_of_le (untouched_le system ht) with hlt | heq
    · exact Prod.Lex.left _ _ hlt
    · rw [heq]; exact Prod.Lex.right _ hw
  unfold step at h
  split at h
  · next hp =>
    simp only at h
    split at h
    · cases h
    · cases h
      apply keep
      · intro n hn
        rw [touched_absorb, touched_leave]
        exact .inr hn
      · rw [work_absorb]
        simp [work, leave, hx, hp]
  · next name e more hp =>
    have same : ∀ z : Expansion context, z.frames = { f with pending := more, exponent := e } :: rest →
        z.positions = x.positions → z.resolved = x.resolved →
        (∀ n, x.touched n = true → z.touched n = true) ∧ z.work < x.work := by
      intro z hz hi hr
      refine ⟨fun n hn => ?_, ?_⟩
      · simpa [touched, hi, hr] using hn
      · simp [work, hx, hz, hp]
    simp only at h
    split at h
    · rw [emptyReference_eq rfl] at h
      cases h
      apply keep
      · intro n hn
        rw [touched_absorb]
        refine (same _ ?_ ?_ ?_).1 n hn <;> rfl
      · rw [work_absorb]
        refine (same _ ?_ ?_ ?_).2 <;> rfl
    · split at h
      · next he =>
        cases h
        obtain ⟨hf, hi, hr⟩ := enter_eq_some he
        apply keep
        · intro n hn
          rw [touched_absorb]
          exact (same _ hf hi hr).1 n hn
        · rw [work_absorb]
          exact (same _ hf hi hr).2
      · next he =>
        cases h
        obtain ⟨rfl, hm, ht⟩ := enter_eq_none he
        have hsame := same { x with frames := { f with pending := more, exponent := e } :: rest } rfl rfl rfl
        refine Prod.Lex.left _ _ (length_filter_lt_of_imp ?_ hm ?_ ?_)
        · intro n hn
          cases hxn : x.touched n with
          | false => rfl
          | true =>
            rw [(touched_push _ _ _ n).mpr (.inr (hsame.1 n hxn))] at hn
            cases hn
        · rw [(touched_push _ _ _ name).mpr (.inl rfl)]
          rfl
        · cases hxn : x.touched name with
          | false => rfl
          | true => exact absurd (hsame.1 name hxn) (by simp [ht])

/-! ### Running -/

/-- Work until the outermost name is resolved; its dimension, and the state that is left. -/
def run (system : UnitSystem) (span : Span) (x : Expansion context) : Dimension × Expansion context :=
  match _hx : x.frames with
  | [] => (.dimensionless, x)
  | f :: rest =>
    match _h : x.step system span f rest with
    | (some d, y) => (d, y)
    | (none, y) => run system span y
termination_by ((x.untouched system).length, x.work)
decreasing_by exact step_decreases _hx _h

/-- Resolve a name. -/
def resolveName (system : UnitSystem) (span : Span) (name : String) (x : Expansion context) :
    Dimension × Expansion context :=
  match x.enter system span name with
  | (some d, y) => (d, y)
  | (none, y) => y.run system span

end Expansion

/-! ### Evaluation -/

/-- The dimension of an expression and what was reported about the definitions that it reaches. -/
structure Evaluation (δ : Type) where
  units : Dimension
  problems : List δ
deriving DecidableEq, Inhabited

namespace Evaluation

variable {γ δ : Type} [Reporting γ δ] {context : γ}

/-- Resolve a term and multiply its power into the product so far. -/
def addTerm (system : UnitSystem) (s : Dimension × Expansion context) (t : Term) : Dimension × Expansion context :=
  let resolved := s.2.resolveName system t.span t.name
  (s.1.mulPow resolved.1 t.exponent, resolved.2)

/-- Resolve the terms of an expression from left to right in a context. A cycle stops only the branch on which it is
found. -/
def ofIn (context : γ) (system : UnitSystem) (e : Expression) : Evaluation δ :=
  let folded := e.foldl (addTerm system) (.dimensionless, (.initial : Expansion context))
  ⟨folded.1, folded.2.problems⟩

/-- Resolve the terms of an expression. -/
def of (system : UnitSystem) (e : Expression) : Evaluation Problem :=
  ofIn () system e

end Evaluation
end Dimensional
