import Dimensional.Proofs.Resolution.Search
import Mathlib.Data.List.Nodup

/-!
# Reports of cycles

Which cycles an evaluation reports, and where. Every reported path is a cycle of dependencies that meets no name twice
(`Problem.Arises`), no name is reported twice (`Reported`), and a report stands at the first term that leads to the
cycle (`Anchored` for the moves of one term, `Surveyed` for the terms so far).

The main statement is `cycles_reported`: reports are sound, and every strongly connected component that contains a cycle
and is reached has one.
-/

namespace Dimensional

open Relation (ReflTransGen)

/-! ### Reports -/

def Problem.cycleUnit? (p : Problem) : Option String :=
  match p.id, p.detail with
  | .circularReferences, .cycle unit _ => some unit
  | _, _ => none

/-- Names from `u` along dependencies back to `u`, none of them met twice. -/
def UnitSystem.IsCycleAt (system : UnitSystem) (u : String) (path : List String) : Prop :=
  ∃ inner, path = u :: inner ++ [u] ∧ (u :: inner).Nodup ∧ path.IsChain system.DependsOn

/-- What a problem of definitions is: a cycle, or a reference to the empty name. -/
inductive Problem.Arises (system : UnitSystem) : Problem → Prop
  | cycle {span : Span} {u : String} {path : List String} (h : system.IsCycleAt u path) :
      Arises system ⟨.circularReferences, span, .cycle u path⟩
  | malformed {span : Span} {n : String} {text : String} (h : system.Refers n "") :
      Arises system ⟨.internalError, span, .malformed text⟩

theorem transGen_of_isChain {R : String → String → Prop} {inner : List String} {a b : String}
    (h : (a :: inner ++ [b]).IsChain R) : Relation.TransGen R a b := by
  induction inner generalizing a with
  | nil =>
    cases h with
    | cons_cons hab _ => exact .single hab
  | cons c inner ih =>
    cases h with
    | cons_cons hac hrest => exact .head hac (ih hrest)

theorem Problem.Arises.cyclic {system : UnitSystem} {p : Problem} {u : String} (h : p.Arises system)
    (hu : p.cycleUnit? = some u) : system.Cyclic u := by
  cases h with
  | @cycle _ v path hpath =>
    obtain ⟨inner, rfl, -, hchain⟩ := hpath
    simp only [Problem.cycleUnit?, Option.some.injEq] at hu
    subst hu
    exact transGen_of_isChain hchain
  | malformed he => simp [Problem.cycleUnit?] at hu

/-- The first term of an expression whose name has a property. -/
def Expression.First (P : String → Prop) (e : Expression) (t : Term) : Prop :=
  ∃ before after, e = before ++ t :: after ∧ P t.name ∧ ∀ b ∈ before, ¬ P b.name

namespace Expression.First

variable {P : String → Prop} {e : Expression} {t : Term}

theorem append (h : First P e t) (after : Expression) : First P (e ++ after) t := by
  obtain ⟨before, rest, rfl, ht, hb⟩ := h
  exact ⟨before, rest ++ after, by simp, ht, hb⟩

theorem last (ht : P t.name) (he : ∀ b ∈ e, ¬ P b.name) : First P (e ++ [t]) t :=
  ⟨e, [], rfl, ht, he⟩

theorem congr {Q : String → Prop} (h : First P e t) (hPQ : ∀ n, P n ↔ Q n) : First Q e t := by
  obtain ⟨before, rest, rfl, ht, hb⟩ := h
  exact ⟨before, rest, rfl, (hPQ _).mp ht, fun b hbm hq => hb b hbm ((hPQ _).mpr hq)⟩

end Expression.First

namespace Expansion

variable {system : UnitSystem} {span : Span} {x y : Expansion ()} {current : Option String} {f : Frame}
  {rest : List Frame} {n : String}

/-- The reports agree with the names found on cycles, and each is justified. -/
structure Reported (system : UnitSystem) (x : Expansion ()) : Prop where
  units : x.problems.filterMap Problem.cycleUnit? = x.cyclic.reverse
  nodup : x.cyclic.Nodup
  arises : ∀ p ∈ x.problems, p.Arises system

theorem Reported.initial (system : UnitSystem) : Reported system .initial :=
  ⟨rfl, List.nodup_nil, fun _ hp => absurd hp List.not_mem_nil⟩

theorem exists_dropWhile_ne_eq {names : List String} (hn : n ∈ names) :
    ∃ inner, names.dropWhile (fun m => m != n) = n :: inner := by
  induction names with
  | nil => cases hn
  | cons m rest ih =>
    by_cases hm : m = n
    · exact ⟨rest, by simp [hm]⟩
    · obtain ⟨inner, hi⟩ := ih ((List.mem_cons.mp hn).resolve_left (Ne.symm hm))
      exact ⟨inner, by simp [hm, hi]⟩

/-- **A name of the chain that the innermost definition refers to closes a cycle.** -/
theorem Searched.isCycleAt_cyclePath (h : Searched system current x) (hx : x.frames = f :: rest)
    (hd : system.DependsOn f.name n) (hm : n ∈ x.chain) : system.IsCycleAt n (x.cyclePath n) := by
  have hnodup : x.chain.Nodup := List.nodup_reverse.mpr h.nodup
  have hchain : (x.chain ++ [n]).IsChain system.DependsOn := by
    have hrev := List.isChain_reverse.mp h.stack.isChain
    rw [hx] at hrev
    have : x.chain ++ [n] = (n :: (f :: rest).map Frame.name).reverse := by simp [chain, hx]
    rw [this, List.isChain_reverse]
    exact .cons_cons hd hrev
  have hsuffix : x.chain.dropWhile (fun m => m != n) <:+ x.chain := List.dropWhile_suffix _
  obtain ⟨inner, hinner⟩ := exists_dropWhile_ne_eq hm
  refine ⟨inner, by rw [cyclePath, hinner], hinner ▸ hsuffix.sublist.nodup hnodup, ?_⟩
  rw [cyclePath]
  obtain ⟨front, hfront⟩ := hsuffix
  rw [← hfront, List.append_assoc] at hchain
  exact hchain.right_of_append

theorem Reported.move (h : Reported system x) (hs : Searched system none x) (hm : Move system span x y) :
    Reported system y := by
  cases hm with
  | leave hx hp => exact ⟨h.units, h.nodup, h.arises⟩
  | descend hx hp hn hf => exact ⟨h.units, h.nodup, h.arises⟩
  | @settle f rest n e more d c ps hx hp hset =>
    cases hset with
    | known hn hk => exact ⟨h.units, h.nodup, h.arises⟩
    | empty =>
      refine ⟨by simp [h.units, Problem.cycleUnit?], h.nodup, fun p hpm => ?_⟩
      rcases List.mem_append.mp hpm with hpm | hpm
      · exact h.arises p hpm
      · rw [List.mem_singleton.mp hpm]
        exact .malformed ((hs.stands hx).refers_of_pending hp)
    | closing hn hc hmem =>
      refine ⟨by simp [h.units, Problem.cycleUnit?], List.nodup_cons.mpr ⟨hc, h.nodup⟩, fun p hpm => ?_⟩
      rcases List.mem_append.mp hpm with hpm | hpm
      · exact h.arises p hpm
      · rw [List.mem_singleton.mp hpm]
        exact .cycle (hs.isCycleAt_cyclePath hx ⟨hn, (hs.stands hx).refers_of_pending hp⟩ hmem)

/-! ### The moves of one term -/

/-- The state `x` while the term `t` is resolved, from the state `x₀` on. -/
structure Anchored (system : UnitSystem) (t : Term) (x₀ x : Expansion ()) : Prop where
  reached : ∀ f ∈ x.frames, system.Reaches t.name f.name
  kept : ∀ n, x₀.resolved.contains n → x.resolved.contains n
  added : ∀ n, x.resolved.contains n → x₀.resolved.contains n ∨ system.Reaches t.name n
  problems : ∃ new, x.problems = x₀.problems ++ new ∧ ∀ p ∈ new, p.span = t.span ∧
    ∀ u, p.cycleUnit? = some u → system.Reaches t.name u ∧ ¬ x₀.resolved.contains u

variable {t : Term} {x₀ : Expansion ()}

theorem Anchored.start (hf : ∀ f ∈ x.frames, system.Reaches t.name f.name) (hr : x.resolved = x₀.resolved)
    (hp : x.problems = x₀.problems) : Anchored system t x₀ x :=
  ⟨hf, fun _ hn => hr ▸ hn, fun _ hn => .inl (hr ▸ hn), [], by simp [hp], fun _ hq => absurd hq List.not_mem_nil⟩

theorem Anchored.resolved_insert (h : Anchored system t x₀ x) (hn : system.Reaches t.name n) (v : Dimension)
    (is : NameMap Nat) (frames : List Frame) (hf : ∀ f ∈ frames, system.Reaches t.name f.name) :
    Anchored system t x₀ ⟨frames, is, x.resolved.insert n v, x.cyclic, x.problems⟩ := by
  refine ⟨hf, ?_, ?_, h.problems⟩
  · intro m hm
    exact (NameMap.contains_insert _ _ _ _).mpr (.inr (h.kept m hm))
  · intro m hm
    rcases (NameMap.contains_insert _ _ _ _).mp hm with rfl | hm
    · exact .inr hn
    · exact h.added m hm

/-- A problem of the term is added. -/
theorem Anchored.report (h : Anchored system t x₀ x) {p : Problem} (hp : p.span = t.span)
    (hu : ∀ u, p.cycleUnit? = some u → system.Reaches t.name u ∧ ¬ x₀.resolved.contains u) (c : List String)
    (is : NameMap Nat) (frames : List Frame) (hf : ∀ f ∈ frames, system.Reaches t.name f.name) :
    Anchored system t x₀ ⟨frames, is, x.resolved, c, x.problems ++ [p]⟩ := by
  obtain ⟨new, hnew, hall⟩ := h.problems
  refine ⟨hf, h.kept, h.added, new ++ [p], by rw [hnew, List.append_assoc], ?_⟩
  intro q hq
  rcases List.mem_append.mp hq with hq | hq
  · exact hall q hq
  · rw [List.mem_singleton.mp hq]
    exact ⟨hp, hu⟩

theorem Anchored.move (h : Anchored system t x₀ x) (hs : Searched system none x) (hm : Move system t.span x y) :
    Anchored system t x₀ y := by
  have hframes : ∀ f ∈ y.frames, system.Reaches t.name f.name :=
    hm.forall_names hs.stack h.reached fun _ _ hreach hd => hreach.tail hd
  cases hm with
  | @leave f g rest hx hp => exact h.resolved_insert (h.reached f (by simp [hx])) _ _ _ hframes
  | descend hx hp hn hf => exact ⟨hframes, h.kept, h.added, h.problems⟩
  | @settle f rest n e more d c ps hx hp hset =>
    cases hset with
    | known hn hk => exact ⟨hframes, h.kept, h.added, h.problems⟩
    | empty => exact h.report rfl (fun u hu => by simp [Problem.cycleUnit?] at hu) _ _ _ hframes
    | closing hn hc hmem =>
      refine h.report rfl (fun u hu => ?_) _ _ _ hframes
      simp only [Problem.cycleUnit?, Option.some.injEq] at hu
      subst hu
      obtain ⟨k, hk, rfl⟩ := mem_chain.mp hmem
      exact ⟨h.reached k hk, fun hcon => hs.unfinished k hk (h.kept _ hcon)⟩

/-- What holds of the state along all moves of a term. -/
theorem moves_induction (hm : ReflTransGen (Move system t.span) x y) (hs : Searched system none x)
    (hr : Reported system x) (ha : Anchored system t x₀ x) :
    Searched system none y ∧ Reported system y ∧ Anchored system t x₀ y := by
  induction hm with
  | refl => exact ⟨hs, hr, ha⟩
  | tail _ hlast ih =>
    obtain ⟨hs', hr', ha'⟩ := ih
    exact ⟨hs'.move hlast, hr'.move hs' hlast, ha'.move hs' hlast⟩

end Expansion

/-! ### The terms of an expression -/

namespace Evaluation

open Expansion UnitSystem

/-- The state `x` after the terms `e`. -/
structure Surveyed (system : UnitSystem) (e : Expression) (x : Expansion ()) : Prop where
  searched : Searched system none x
  reported : Reported system x
  idle : x.Idle
  /-- The terms need no expansion any more. -/
  settled : ∀ t ∈ e, system.definition t.name = .base ∨ x.resolved.contains t.name
  /-- Only what the terms lead to was expanded. -/
  origin : ∀ n, x.resolved.contains n → ∃ t ∈ e, system.Reaches t.name n
  /-- A cycle is reported at the first term that leads to its unit. -/
  anchored : ∀ p ∈ x.problems, ∀ u, p.cycleUnit? = some u →
    ∃ t, e.First (system.Reaches · u) t ∧ p.span = t.span

variable {system : UnitSystem} {e : Expression} {x : Expansion ()} {t : Term} {n m u : String}

theorem Surveyed.initial (system : UnitSystem) : Surveyed system [] .initial :=
  ⟨.initial system, .initial system, .initial, fun _ ht => absurd ht List.not_mem_nil,
    fun n hn => absurd hn (by simp [Expansion.initial, NameMap.contains]), fun _ hp => absurd hp List.not_mem_nil⟩

/-- Between two terms a name found on a cycle is finished. -/
theorem Surveyed.finished_of_cyclic (h : Surveyed system e x) (hn : n ∈ x.cyclic) : x.resolved.contains n := by
  rcases h.searched.met n hn with hc | hr
  · rw [chain, h.idle.frames_eq] at hc
    cases hc
  · exact hr

/-- All that a finished name leads to is finished, base units apart. -/
theorem Surveyed.finished_of_reaches (h : Surveyed system e x) (hn : x.resolved.contains n) (hr : system.Reaches n m) :
    system.definition m = .base ∨ x.resolved.contains m := by
  induction hr with
  | refl => exact .inr hn
  | tail _ hd ih =>
    rcases ih with hb | hfin
    · exact absurd hd.2 (not_refers_of_base hb)
    · rcases h.searched.closed _ hfin _ hd with hb | hr | hc
      · exact .inl hb
      · exact .inr hr
      · exact .inr (h.finished_of_cyclic hc)

/-- **All that the terms lead to is finished**, base units apart. -/
theorem Surveyed.finished (h : Surveyed system e x) (ht : t ∈ e) (hr : system.Reaches t.name m) :
    system.definition m = .base ∨ x.resolved.contains m := by
  rcases h.settled t ht with hb | hfin
  · rw [eq_of_reaches_of_base hb hr]
    exact .inl hb
  · exact h.finished_of_reaches hfin hr

/-- A term is resolved from the state after the terms in front of it. -/
theorem Surveyed.of_anchored {y : Expansion ()} (h : Surveyed system e x) (hs : Searched system none y)
    (hr : Reported system y) (ha : Anchored system t x y) (hy : y.Idle)
    (ht : system.definition t.name = .base ∨ y.resolved.contains t.name) : Surveyed system (e ++ [t]) y := by
  refine ⟨hs, hr, hy, ?_, ?_, ?_⟩
  · intro b hb
    rcases List.mem_append.mp hb with hb | hb
    · exact (h.settled b hb).imp_right (ha.kept _)
    · rw [List.mem_singleton.mp hb]
      exact ht
  · intro n hn
    rcases ha.added n hn with hold | hnew
    · obtain ⟨b, hb, hreach⟩ := h.origin n hold
      exact ⟨b, List.mem_append_left _ hb, hreach⟩
    · exact ⟨t, by simp, hnew⟩
  · intro p hp u hu
    obtain ⟨new, hnew, hall⟩ := ha.problems
    rw [hnew] at hp
    rcases List.mem_append.mp hp with hp | hp
    · obtain ⟨b, hfirst, hspan⟩ := h.anchored p hp u hu
      exact ⟨b, hfirst.append [t], hspan⟩
    · obtain ⟨hspan, hunit⟩ := hall p hp
      obtain ⟨hreach, hfresh⟩ := hunit u hu
      refine ⟨t, .last hreach fun b hb hbu => ?_, hspan⟩
      rcases h.finished hb hbu with hbase | hfin
      · have hcyc := (hr.arises p (hnew ▸ List.mem_append_right _ hp)).cyclic hu
        exact definition_ne_base_of_cyclic hcyc hbase
      · exact hfresh hfin

theorem Surveyed.resolveName (h : Surveyed system e x) (t : Term) :
    Surveyed system (e ++ [t]) (x.resolveName system t.span t.name).2 := by
  have hidle := h.idle.resolveName system t.span t.name
  rcases resolveName_cases h.idle system t.span t.name with ⟨d, hk, he⟩ | ⟨hf, y, f, hy, hyf, hname, hp, he⟩ <;>
    rw [he] at hidle ⊢
  · refine h.of_anchored h.searched h.reported ?_ hidle ?_
    · exact .start (fun f hf => by rw [h.idle.frames_eq] at hf; cases hf) rfl rfl
    · rcases hk.settled with hb | hr | hc
      · exact .inl hb
      · exact .inr hr
      · exact .inr (h.finished_of_cyclic hc)
  · have hpush := (h.searched.of_frames_eq_nil h.idle.frames_eq (some t.name)).push hf (x.positions.insert t.name 0)
    rw [h.idle.frames_eq] at hpush
    have hanch : Anchored system t x (x.started system t.name) :=
      .start (fun f hf => by rw [List.mem_singleton.mp hf]; exact .refl) rfl rfl
    obtain ⟨hs, hr, ha⟩ := moves_induction hy hpush ⟨h.reported.units, h.reported.nodup, h.reported.arises⟩ hanch
    refine h.of_anchored ((hs.pop hyf hp f.folded _).of_frames_eq_nil rfl none) ⟨hr.units, hr.nodup, hr.arises⟩ ?_ hidle
      ?_
    · exact ha.resolved_insert (hname ▸ .refl) _ _ _ fun _ hk => absurd hk List.not_mem_nil
    · exact .inr ((NameMap.contains_insert _ _ _ _).mpr (.inl hname.symm))

theorem surveyed_after (system : UnitSystem) (e : Expression) : Surveyed system e (after system e).2 := by
  induction e using List.reverseRecOn with
  | nil => exact .initial system
  | append_singleton e t ih =>
    rw [after_append_singleton]
    exact ih.resolveName t

/-! ### The reports of an evaluation -/

/-- A component with a cycle that a term leads to has a name found on a cycle. -/
theorem Surveyed.exists_mem_cyclic {C : Set String} (h : Surveyed system e x) (hC : system.IsComponent C)
    (hcyc : ∃ n ∈ C, system.Cyclic n) (hreach : ∃ t ∈ e, system.LeadsInto C t.name) : ∃ u ∈ C, u ∈ x.cyclic := by
  obtain ⟨n, hn, hnc⟩ := hcyc
  obtain ⟨t, ht, hlead⟩ := hreach
  rcases h.finished ht ((hC.leadsInto_iff hn).mp hlead) with hb | hfin
  · exact absurd hb (definition_ne_base_of_cyclic hnc)
  · obtain ⟨u, hu, hnu⟩ := h.searched.found n hfin hnc
    exact ⟨u, hC.mem hn hnu, hu⟩

theorem Surveyed.mem_cyclic_iff (h : Surveyed system e x) :
    u ∈ x.cyclic ↔ ∃ p ∈ x.problems, p.cycleUnit? = some u := by
  rw [← List.mem_reverse, ← h.reported.units, List.mem_filterMap]

/-- **Reports of cycles are sound, complete and in place.** A problem is a malformed definition or a cycle of
dependencies that meets no name twice, and no name is reported twice. A strongly connected component that contains a
cycle and that some term leads to has a report, and all reports of its names stand at the first term that leads to
it. -/
theorem cycles_reported (system : UnitSystem) (e : Expression) :
    (∀ p ∈ (of system e).problems,
      (p.id = .circularReferences ∧ ∃ u path, p.detail = .cycle u path ∧ system.IsCycleAt u path) ∨
      (p.id = .internalError ∧ ∃ text, p.detail = .malformed text)) ∧
    ((of system e).problems.filterMap Problem.cycleUnit?).Nodup ∧
    ∀ C, system.IsComponent C → (∃ n ∈ C, system.Cyclic n) → (∃ t ∈ e, system.LeadsInto C t.name) →
      (∃ p ∈ (of system e).problems, ∃ u ∈ C, p.cycleUnit? = some u) ∧
      ∀ p ∈ (of system e).problems, ∀ u ∈ C, p.cycleUnit? = some u →
        ∃ t, e.First (system.LeadsInto C) t ∧ p.span = t.span := by
  have h := surveyed_after system e
  refine ⟨?_, ?_, ?_⟩
  · intro p hp
    cases h.reported.arises p hp with
    | cycle hpath => exact .inl ⟨rfl, _, _, rfl, hpath⟩
    | malformed he => exact .inr ⟨rfl, _, rfl⟩
  · rw [of_eq_after, h.reported.units]
    exact List.nodup_reverse.mpr h.reported.nodup
  · intro C hC hcyc hreach
    constructor
    · obtain ⟨u, huC, hu⟩ := h.exists_mem_cyclic hC hcyc hreach
      obtain ⟨p, hp, hpu⟩ := h.mem_cyclic_iff.mp hu
      exact ⟨p, hp, u, huC, hpu⟩
    · intro p hp u huC hpu
      obtain ⟨t, hfirst, hspan⟩ := h.anchored p hp u hpu
      exact ⟨t, hfirst.congr fun n => (hC.leadsInto_iff huC).symm, hspan⟩

end Evaluation
end Dimensional
