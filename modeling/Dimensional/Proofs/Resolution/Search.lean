import Dimensional.Proofs.Resolution.Stack

/-!
# Expansion as a depth-first search

The names under expansion are a path of the search, the remembered ones are finished. `Searched` is the invariant of the
moves: every reference that is folded is settled, the references of a finished name are settled, and a component that
has a finished name and contains a cycle has a name found on a cycle.

The last part is what makes the search complete. The first name of such a component to be finished depends on a name of
the component, which cannot be finished, so it was on the stack when it was reached, and was found on a cycle.
-/

namespace Dimensional

theorem NameMap.contains_insert {α : Type} (m : NameMap α) (n n' : String) (v : α) :
    (m.insert n v).contains n' ↔ n' = n ∨ m.contains n' := by
  rw [contains, get?_insert, contains]
  by_cases h : n' = n <;> simp [h]

namespace Expansion

open UnitSystem

def Settled (system : UnitSystem) (x : Expansion ()) (n : String) : Prop :=
  system.definition n = .base ∨ x.resolved.contains n ∨ n ∈ x.cyclic

def AllSettled (system : UnitSystem) (x : Expansion ()) : Folding :=
  fun done _ => ∀ r ∈ done, r.1 ≠ "" → x.Settled system r.1

/-- The state of the search; `current` is the reference of the innermost frame that is being resolved. -/
structure Searched (system : UnitSystem) (current : Option String) (x : Expansion ()) : Prop where
  stack : Stack system (x.AllSettled system) current x.frames
  /-- Nothing is under expansion twice. -/
  nodup : (x.frames.map Frame.name).Nodup
  /-- Nothing under expansion is finished. -/
  unfinished : ∀ f ∈ x.frames, ¬ x.resolved.contains f.name
  /-- The references of a finished name are settled. -/
  closed : ∀ n, x.resolved.contains n → ∀ r, system.DependsOn n r → x.Settled system r
  /-- A name found on a cycle is under expansion, waits to be resumed, or is finished. -/
  met : ∀ n ∈ x.cyclic, n ∈ x.chain ∨ x.resolved.contains n
  /-- A cycle of a finished name was found. -/
  found : ∀ n, x.resolved.contains n → system.Cyclic n → ∃ u ∈ x.cyclic, system.Connected n u

variable {system : UnitSystem} {span : Span} {x y : Expansion ()} {current : Option String} {f g : Frame}
  {rest : List Frame} {n : String} {d : Dimension}

theorem Searched.initial (system : UnitSystem) : Searched system none .initial where
  stack := trivial
  nodup := List.nodup_nil
  unfinished _ hf := absurd hf List.not_mem_nil
  closed n hn := absurd hn (by simp [Expansion.initial, NameMap.contains])
  met n hn := absurd hn List.not_mem_nil
  found n hn := absurd hn (by simp [Expansion.initial, NameMap.contains])

theorem Searched.stands (h : Searched system current x) (hx : x.frames = f :: rest) :
    f.Stands system (x.AllSettled system) current := by
  have hstack := h.stack
  rw [hx] at hstack
  exact hstack.1

/-- With nothing on the stack nothing is being resolved. -/
theorem Searched.of_frames_eq_nil (h : Searched system current x) (hx : x.frames = []) (current' : Option String) :
    Searched system current' x :=
  ⟨by rw [hx]; trivial, h.nodup, h.unfinished, h.closed, h.met, h.found⟩

/-! ### What is settled stays settled -/

theorem Settled.mono (hr : ∀ n, x.resolved.contains n → y.resolved.contains n) (hc : ∀ n ∈ x.cyclic, n ∈ y.cyclic)
    (h : x.Settled system n) : y.Settled system n := by
  rcases h with hb | hr' | hc'
  · exact .inl hb
  · exact .inr (.inl (hr n hr'))
  · exact .inr (.inr (hc n hc'))

theorem AllSettled.mono (h : ∀ n, x.Settled system n → y.Settled system n) (done : List (String × Exponent))
    (d : Dimension) (hd : x.AllSettled system done d) : y.AllSettled system done d :=
  fun r hr hne => h _ (hd r hr hne)

theorem AllSettled.append_singleton {done : List (String × Exponent)} {e : Exponent} {d' : Dimension}
    (hd : x.AllSettled system done d) (hn : n ≠ "" → x.Settled system n) :
    x.AllSettled system (done ++ [(n, e)]) d' := by
  have hall : Folding.All (fun m => m ≠ "" → x.Settled system m) done d := hd
  exact hall.append_singleton d' hn

theorem Known.settled (h : x.Known system n d) : x.Settled system n := by
  cases h with
  | reported hc => exact .inr (.inr hc)
  | remembered hc hr => exact .inr (.inl (by simp [NameMap.contains, hr]))
  | base hb => exact .inl hb

/-! ### Finishing a definition -/

/-- A name on a cycle all of whose references are settled has a name found on a cycle in its component. -/
theorem Searched.exists_found (h : Searched system current x) (hn : ∀ r, system.DependsOn n r → x.Settled system r)
    (hc : system.Cyclic n) : ∃ u ∈ x.cyclic, system.Connected n u := by
  obtain ⟨r, hd, hnr⟩ := exists_dependsOn_connected hc
  have hr : system.Cyclic r := hc.of_connected hnr
  rcases hn r hd with hb | hfin | hcyc
  · exact absurd hb (definition_ne_base_of_cyclic hr)
  · obtain ⟨u, hu, hru⟩ := h.found r hfin hr
    exact ⟨u, hu, hnr.trans hru⟩
  · exact ⟨r, hcyc, hnr⟩

/-- The innermost definition is taken off the stack and remembered. -/
theorem Searched.pop (h : Searched system none x) (hx : x.frames = f :: rest) (hp : f.pending = []) (v : Dimension)
    (is : NameMap Nat) :
    Searched system (some f.name) ⟨rest, is, x.resolved.insert f.name v, x.cyclic, x.problems⟩ := by
  obtain ⟨hf, hrest⟩ := hx ▸ h.stack
  have hnodup := h.nodup
  rw [hx, List.map_cons, List.nodup_cons] at hnodup
  have hmono : ∀ n, x.Settled system n →
      Settled system ⟨rest, is, x.resolved.insert f.name v, x.cyclic, x.problems⟩ n := fun n =>
    Settled.mono (fun m hm => (NameMap.contains_insert _ _ _ _).mpr (.inr hm)) fun m hm => hm
  have hdone : ∀ r, system.DependsOn f.name r → x.Settled system r := by
    intro r hd
    obtain ⟨p, hpm, rfl⟩ := List.mem_map.mp hd.2
    exact hf.folds hp p hpm hd.1
  refine ⟨hrest.mono (AllSettled.mono hmono), hnodup.2, ?_, ?_, ?_, ?_⟩
  · intro k hk hcon
    rcases (NameMap.contains_insert _ _ _ _).mp hcon with heq | hcon
    · exact hnodup.1 (heq ▸ List.mem_map.mpr ⟨k, hk, rfl⟩)
    · exact h.unfinished k (by simp [hx, hk]) hcon
  · intro n hn r hd
    rcases (NameMap.contains_insert _ _ _ _).mp hn with rfl | hn
    · exact hmono r (hdone r hd)
    · exact hmono r (h.closed n hn r hd)
  · intro n hn
    rcases h.met n hn with hm | hm
    · obtain ⟨k, hk, rfl⟩ := mem_chain.mp hm
      rcases List.mem_cons.mp (hx ▸ hk) with rfl | hk
      · exact .inr ((NameMap.contains_insert _ _ _ _).mpr (.inl rfl))
      · exact .inl (mem_chain.mpr ⟨k, hk, rfl⟩)
    · exact .inr ((NameMap.contains_insert _ _ _ _).mpr (.inr hm))
  · intro n hn hc
    rcases (NameMap.contains_insert _ _ _ _).mp hn with rfl | hn
    · exact h.exists_found hdone hc
    · exact h.found n hn hc

/-! ### Moves -/

/-- Only the innermost frame is replaced, by one of the same name. -/
theorem Searched.replace (h : Searched system current x) (hx : x.frames = f :: rest) {current' : Option String}
    (hg : g.Stands system (x.AllSettled system) current') (hname : g.name = f.name) (is : NameMap Nat)
    (ps : List Problem) : Searched system current' ⟨g :: rest, is, x.resolved, x.cyclic, ps⟩ := by
  have hstack := hx ▸ h.stack
  refine ⟨⟨hg, hname ▸ hstack.2⟩, ?_, ?_, h.closed, ?_, h.found⟩
  · simpa [hx, hname] using h.nodup
  · intro k hk
    rcases List.mem_cons.mp hk with rfl | hk
    · rw [hname]; exact h.unfinished f (by simp [hx])
    · exact h.unfinished k (by simp [hx, hk])
  · intro n hn
    simpa [chain, hx, hname] using h.met n hn

/-- A name of the chain is found on a cycle. -/
theorem Searched.mark (h : Searched system current x) (hn : n ∈ x.chain) (is : NameMap Nat) (ps : List Problem) :
    Searched system current ⟨x.frames, is, x.resolved, n :: x.cyclic, ps⟩ := by
  have hmono : ∀ m, x.Settled system m → Settled system ⟨x.frames, is, x.resolved, n :: x.cyclic, ps⟩ m := fun m =>
    Settled.mono (fun k hk => hk) fun k hk => List.mem_cons_of_mem _ hk
  refine ⟨h.stack.mono (AllSettled.mono hmono), h.nodup, h.unfinished, ?_, ?_, ?_⟩
  · intro m hm r hd
    exact hmono r (h.closed m hm r hd)
  · intro m hm
    rcases List.mem_cons.mp hm with rfl | hm
    · exact .inl hn
    · exact h.met m hm
  · intro m hm hc
    obtain ⟨u, hu, hcon⟩ := h.found m hm hc
    exact ⟨u, List.mem_cons_of_mem _ hu, hcon⟩

/-- The definition of a fresh name is put on the stack. -/
theorem Searched.push (h : Searched system (some n) x) (hf : x.Fresh system n) (is : NameMap Nat) :
    Searched system none
      ⟨.start n (system.definition n) :: x.frames, is, x.resolved, x.cyclic, x.problems⟩ := by
  refine ⟨⟨.start hf.compound fun r hr => absurd hr List.not_mem_nil, h.stack⟩, ?_, ?_, h.closed, ?_, h.found⟩
  · rw [List.map_cons, List.nodup_cons]
    refine ⟨fun hm => hf.unchained ?_, h.nodup⟩
    exact mem_chain.mpr (List.mem_map.mp hm)
  · intro k hk
    rcases List.mem_cons.mp hk with rfl | hk
    · simp [NameMap.contains, hf.unresolved]
    · exact h.unfinished k hk
  · intro m hm
    rcases h.met m hm with hc | hr
    · refine .inl (mem_chain.mpr ?_)
      obtain ⟨k, hk, he⟩ := mem_chain.mp hc
      exact ⟨k, List.mem_cons_of_mem _ hk, he⟩
    · exact .inr hr

/-- **Every move keeps the state of the search.** -/
theorem Searched.move (h : Searched system none x) (hm : Move system span x y) : Searched system none y := by
  cases hm with
  | @leave f g rest hx hp =>
    have hpop := h.pop hx hp f.folded (x.positions.erase f.name)
    have hg := hpop.stands rfl
    refine hpop.replace rfl (hg.absorb fun done hd => hd.append_singleton fun _ => ?_) (Frame.name_absorb _ _) _ _
    exact .inr (.inl ((NameMap.contains_insert _ _ _ _).mpr (.inl rfl)))
  | @settle f rest n e more d c ps hx hp hs =>
    have hf := h.stands hx
    have hname : ((f.advance e more).absorb d).name = f.name := Frame.name_absorb _ _
    cases hs with
    | empty => exact h.replace hx (hf.settle hp fun done hd => hd.append_singleton fun hne => absurd rfl hne) hname _ _
    | known hn hk => exact h.replace hx (hf.settle hp fun done hd => hd.append_singleton fun _ => hk.settled) hname _ _
    | closing hn hc hmem =>
      have hmark := h.mark hmem x.positions x.problems
      have hf' := hmark.stands hx
      refine hmark.replace hx (hf'.settle hp fun done hd => hd.append_singleton fun _ => ?_) hname _ _
      exact .inr (.inr List.mem_cons_self)
  | @descend f rest n e more hx hp hn hf =>
    have hadv := (h.stands hx).advance hp hn
    have hunchained : n ∉
        (⟨f.advance e more :: rest, x.positions, x.resolved, x.cyclic, x.problems⟩ : Expansion ()).chain := fun hmem =>
      hf.unchained (by simpa [chain, hx] using hmem)
    exact (h.replace hx hadv rfl _ x.problems).push ⟨hf.unreported, hunchained, hf.unresolved, hf.compound⟩ _

end Expansion
end Dimensional
