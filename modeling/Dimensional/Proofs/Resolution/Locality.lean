import Dimensional.Proofs.Resolution.Place
import Dimensional.Proofs.Resolver.Loading
import Mathlib

/-!
# Only reachable definitions count

An evaluation looks up the names of its terms and what these lead to, and no others. A property of names that passes
on to dependencies (`PassesOn`) holds of everything that is still to be resolved once it holds of the terms
(`Confined`), so two unit systems that agree on the names with the property take the same steps (`step_congr`,
`run_congr`).

The main statement is `answers_local`: the outcome depends on the definitions of the names that the terms lead to, and
loading changes an answer only by changing one of these.
-/

namespace Dimensional

namespace UnitSystem

/-- A property that dependencies of a name have with it. -/
def PassesOn (system : UnitSystem) (P : String → Prop) : Prop :=
  ∀ n r, P n → system.DependsOn n r → P r

/-- What the terms lead to passes on. -/
theorem passesOn_reaches (system : UnitSystem) (e : Expression) :
    system.PassesOn fun n => ∃ t ∈ e, system.Reaches t.name n := by
  rintro n r ⟨t, ht, hreach⟩ hd
  exact ⟨t, ht, hreach.tail hd⟩

/-- Definitions that are loaded are looked up first. -/
theorem definition_merge (system other : UnitSystem) (n : String) :
    definition (system.merge other) n = (other.get? n).getD (system.definition n) := by
  rw [definition, NameMap.get?_merge, definition]
  cases other.get? n <;> rfl

end UnitSystem

variable {system system' : UnitSystem} {span : Span} {x y : Expansion ()} {P : String → Prop} {f : Frame}
  {rest : List Frame} {n : String}

/-! ### What is still to be resolved -/

/-- The units that are still to be resolved for a frame have a property. -/
def Frame.Confined (P : String → Prop) (f : Frame) : Prop :=
  ∀ r ∈ f.pending, r.1 ≠ "" → P r.1

theorem Frame.Confined.start (hP : system.PassesOn P) (hn : P n) : (start n (system.definition n)).Confined P := by
  intro r hr hne
  exact hP n r.1 hn ⟨hne, List.mem_map.mpr ⟨r, hr, rfl⟩⟩

theorem Frame.Confined.absorb (h : f.Confined P) (d : Dimension) : (f.absorb d).Confined P := by
  rwa [Confined, pending_absorb]

theorem Frame.Confined.advance {e : Exponent} {more : List (String × Exponent)} (h : f.Confined P)
    (hp : f.pending = (n, e) :: more) : (f.advance e more).Confined P := by
  intro r hr
  exact h r (hp ▸ List.mem_cons_of_mem _ hr)

namespace Expansion

def Confined (P : String → Prop) (x : Expansion ()) : Prop :=
  ∀ f ∈ x.frames, f.Confined P

theorem Confined.started (hP : system.PassesOn P) (hn : P n) (x : Expansion ()) : (x.started system n).Confined P :=
  List.forall_mem_singleton.mpr (.start hP hn)

/-- **No move looks further** than the dependencies of what was to be resolved. -/
theorem Confined.move (h : x.Confined P) (hP : system.PassesOn P) (hm : Move system span x y) : y.Confined P := by
  cases hm with
  | leave hx hp =>
    rw [Confined, hx, List.forall_mem_cons, List.forall_mem_cons] at h
    exact List.forall_mem_cons.mpr ⟨h.2.1.absorb _, h.2.2⟩
  | settle hx hp hs =>
    rw [Confined, hx, List.forall_mem_cons] at h
    exact List.forall_mem_cons.mpr ⟨(h.1.advance hp).absorb _, h.2⟩
  | @descend f rest n e more hx hp hn hf =>
    rw [Confined, hx, List.forall_mem_cons] at h
    have hPn : P n := h.1 (n, e) (by simp [hp]) hn
    exact List.forall_mem_cons.mpr ⟨.start hP hPn, List.forall_mem_cons.mpr ⟨h.1.advance hp, h.2⟩⟩

/-! ### Two unit systems side by side -/

theorem enter_congr (hn : system'.definition n = system.definition n) (span : Span) (x : Expansion ()) :
    x.enter system' span n = x.enter system span n := by
  simp only [enter, hn]

/-- A step looks up the next reference of the innermost definition at most. -/
theorem step_congr (hagree : ∀ n, P n → system'.definition n = system.definition n)
    (hf : f.Confined P) (span : Span) (rest : List Frame) (x : Expansion ()) :
    x.step system' span f rest = x.step system span f rest := by
  cases hp : f.pending with
  | nil => simp only [step, hp]
  | cons p more =>
    obtain ⟨n, e⟩ := p
    by_cases hn : n = ""
    · simp only [step, hp, if_pos hn]
    · have hPn : P n := hf (n, e) (by simp [hp]) hn
      simp only [step, hp, if_neg hn, enter_congr (hagree n hPn)]

/-- **A run is the same** under unit systems that agree on the names that it may come to. -/
theorem run_congr (hagree : ∀ n, P n → system'.definition n = system.definition n) (hP : system.PassesOn P)
    (hi : x.Indexed) (hx : x.Confined P) : x.run system' span = x.run system span := by
  induction x using run.induct system span with
  | case1 x hnil => rw [run_of_frames_eq_nil hnil, run_of_frames_eq_nil hnil]
  | case2 x f rest hfr d y hstep =>
    have hsame := step_congr hagree (hx f (by simp [hfr])) span rest x
    rw [run_of_step_eq_some hfr hstep, run_of_step_eq_some hfr (hsame.trans hstep)]
  | case3 x f rest hfr y hstep ih =>
    have hsame := step_congr hagree (hx f (by simp [hfr])) span rest x
    have hmove := move_of_step hi hfr hstep
    rw [run_of_step_eq_none hfr hstep, run_of_step_eq_none hfr (hsame.trans hstep)]
    exact ih (hi.move hmove) (hx.move hP hmove)

theorem resolveName_congr (hagree : ∀ n, P n → system'.definition n = system.definition n) (hP : system.PassesOn P)
    (hx : x.Idle) (hn : P n) (span : Span) : x.resolveName system' span n = x.resolveName system span n := by
  rw [resolveName, resolveName, enter_congr (hagree n hn)]
  cases he : x.enter system span n with
  | mk d y =>
    cases d with
    | some d => rfl
    | none =>
      obtain ⟨rfl, -, -⟩ := enter_eq_none he
      rw [hx.push_eq_started]
      exact run_congr hagree hP (hx.indexed_started system n) (.started hP hn x)

end Expansion

/-! ### Evaluations -/

namespace Evaluation

theorem after_congr (hagree : ∀ n, P n → system'.definition n = system.definition n) (hP : system.PassesOn P)
    (e : Expression) (he : ∀ t ∈ e, P t.name) : after system' e = after system e := by
  induction e using List.reverseRecOn with
  | nil => rfl
  | append_singleton e t ih =>
    have hsame := ih fun b hb => he b (List.mem_append_left _ hb)
    have hname := Expansion.resolveName_congr hagree hP (idle_after system e) (he t (by simp)) t.span
    rw [after_append_singleton, after_append_singleton, hsame, addTerm, addTerm, hname]

/-- Unit systems that agree on all that the terms lead to give the same outcome. -/
theorem of_congr {e : Expression}
    (h : ∀ t ∈ e, ∀ n, system.Reaches t.name n → system'.definition n = system.definition n) :
    of system' e = of system e := by
  have hagree : ∀ n, (∃ t ∈ e, system.Reaches t.name n) → system'.definition n = system.definition n := by
    rintro n ⟨t, ht, hreach⟩
    exact h t ht n hreach
  have hafter := after_congr hagree (system.passesOn_reaches e) e fun t ht => ⟨t, ht, .refl⟩
  rw [of_eq_after, of_eq_after, hafter]

end Evaluation

namespace Resolver

/-- An answer that changes by loading comes to a name that is defined otherwise now. -/
theorem exists_redefined {r after : Resolver} {other : UnitSystem} {source : String}
    (hload : (loadSystem other).perform r = (.ok (), after)) (hne : after.resolve source ≠ r.resolve source) :
    ∃ t ∈ (Parse.ofSource source).expression, ∃ n d,
      r.system.Reaches t.name n ∧ other.get? n = some d ∧ d ≠ r.system.definition n := by
  by_contra hnone
  have hnot : ¬ r.Overfull other := (loadSystem_ok_iff.mp hload).not_overfull
  rw [perform_loadSystem_of_not_overfull hnot] at hload
  cases hload
  refine hne ?_
  have hsame : Evaluation.of (r.system.merge other) (Parse.ofSource source).expression =
      Evaluation.of r.system (Parse.ofSource source).expression := by
    refine Evaluation.of_congr fun t ht n hreach => ?_
    rw [UnitSystem.definition_merge]
    cases hd : other.get? n with
    | none => rfl
    | some d =>
      by_contra hdiff
      exact hnone ⟨t, ht, n, d, hreach, hd, hdiff⟩
  simp only [resolve, Resolution.of_eq, hsame]

/-- **Only reachable definitions count.** The outcome of an evaluation, its problems with their paths, order and places
included, is the same under all unit systems that give the same definitions to the names that the terms lead to. So
loading definitions changes the answer to a source only if it defines one of these names otherwise than before. -/
theorem answers_local :
    (∀ (system system' : UnitSystem) (e : Expression),
      (∀ t ∈ e, ∀ n, system.Reaches t.name n → system'.definition n = system.definition n) →
        Evaluation.of system' e = Evaluation.of system e) ∧
    ∀ (r after : Resolver) (other : UnitSystem) (source : String),
      (loadSystem other).perform r = (.ok (), after) → after.resolve source ≠ r.resolve source →
        ∃ t ∈ (Parse.ofSource source).expression, ∃ n d,
          r.system.Reaches t.name n ∧ other.get? n = some d ∧ d ≠ r.system.definition n :=
  ⟨fun _ _ _ h => Evaluation.of_congr h, fun _ _ _ _ hload hne => exists_redefined hload hne⟩

/-- A synonym that is redefined in a circle is of no importance for other names. Its own answer changes. -/
theorem answers_local_foot :
    let system : UnitSystem := .ofList [("ft", .product [("m", 1)]), ("m", .base), ("s", .base)]
    let other : UnitSystem := .ofList [("m", .base), ("s", .synonym "s")]
    let r : Resolver := ⟨system, .english, {}⟩
    ∃ after, (loadSystem other).perform r = (.ok (), after) ∧
      Evaluation.of after.system [⟨"ft", 2, ⟨0, 2⟩⟩] = Evaluation.of system [⟨"ft", 2, ⟨0, 2⟩⟩] ∧
      after.resolve "ft²" = r.resolve "ft²" ∧ after.resolve "s" ≠ r.resolve "s" ∧
      ∃ n d, system.Reaches "s" n ∧ other.get? n = some d ∧ d ≠ UnitSystem.definition system n := by
  intro system other r
  obtain ⟨hsame, hlocal⟩ := answers_local
  have hload : (loadSystem other).perform r = (.ok (), { r with system := system.merge other }) :=
    perform_loadSystem_of_not_overfull (by decide +kernel)
  have hft : (UnitSystem.definition system "ft").references = ["m"] := by decide +kernel
  have hm : (UnitSystem.definition system "m").references = [] := by decide +kernel
  have hreach (n : String) (h : system.Reaches "ft" n) : n = "ft" ∨ n = "m" := by
    induction h with
    | refl => exact .inl rfl
    | tail _ hd ih =>
      have href := hd.2
      rcases ih with rfl | rfl
      · exact .inr (by simpa [UnitSystem.Refers, hft] using href)
      · simp [UnitSystem.Refers, hm] at href
  have hagree (n : String) (h : system.Reaches "ft" n) :
      UnitSystem.definition (system.merge other) n = UnitSystem.definition system n := by
    rcases hreach n h with rfl | rfl <;> decide +kernel
  have hchange : Resolver.resolve { r with system := system.merge other } "s" ≠ r.resolve "s" := by
    intro hsame
    have hgood : (r.resolve "s").toOption.map Resolution.isOk = some true := by cbv
    rw [← hsame] at hgood
    have hbad : (Resolver.resolve { r with system := system.merge other } "s").toOption.map Resolution.isOk =
        some false := by
      cbv
    cases hbad.symm.trans hgood
  refine ⟨_, hload, hsame _ _ _ (List.forall_mem_singleton.mpr hagree), ?_, hchange, ?_⟩
  · by_contra hne
    obtain ⟨t, ht, n, d, h, hd, hdiff⟩ := hlocal _ _ _ _ hload hne
    have hexpression : (Parse.ofSource "ft²").expression = [⟨"ft", 2, ⟨0, 2⟩⟩] := by decide +kernel
    rw [hexpression, List.mem_singleton] at ht
    subst ht
    refine hdiff ?_
    rw [← hagree n h, UnitSystem.definition_merge, hd, Option.getD_some]
  · obtain ⟨t, ht, n, d, h, hd, hdiff⟩ := hlocal _ _ _ _ hload hchange
    have hexpression : (Parse.ofSource "s").expression = [⟨"s", 1, ⟨0, 1⟩⟩] := by decide +kernel
    rw [hexpression, List.mem_singleton] at ht
    subst ht
    exact ⟨n, d, h, hd, hdiff⟩

end Resolver
end Dimensional
