import Dimensional.Proofs.Expression.Relocation
import Dimensional.Proofs.Resolution.Transition
import Dimensional.Resolution
import Mathlib.Data.List.Induction

/-!
# Places and words do not count

The place of a term goes as it is into the problems that are reported while the term is resolved, and nowhere else; and
what was reported is never looked at again. So an expansion goes on alike in other places and in another context, and
what it reports is found there (`step_translate`, `run_translate`).

The main statements: terms are resolved alike in all places and contexts (`ofIn_translate`), and a resolution reports in
the words of its catalog what is found without one (`Resolution.of_eq`). With all terms in one place the former says that
the units of an expression depend on the names and exponents of its terms only (`units_congr`).
-/

namespace Dimensional

variable {γ δ γ' δ' : Type} [Reporting γ δ] [Reporting γ' δ'] {context : γ} {context' : γ'} {system : UnitSystem}

namespace Expansion

variable (m : Translation context context')

def translate (x : Expansion context) : Expansion context' :=
  ⟨x.frames, x.positions, x.resolved, x.cyclic, x.problems.map m.word⟩

/-- **A report is the same one in other words.** -/
theorem report_translate (x : Expansion context) (id : MessageId) (span : Span) (detail : Detail) :
    (x.translate m).report id (m.place span) detail = (x.report id span detail).translate m := by
  simp only [report, translate, List.map_append, List.map_cons, List.map_nil, m.word_report]

theorem absorb_translate (x : Expansion context) (d : Dimension) :
    (x.translate m).absorb d = (x.absorb d).translate m := by
  obtain ⟨frames, positions, resolved, cyclic, problems⟩ := x
  cases frames <;> rfl

theorem emptyReference_translate (x : Expansion context) (span : Span) :
    (x.translate m).emptyReference (m.place span) =
      ((x.emptyReference span).1, (x.emptyReference span).2.translate m) := by
  obtain ⟨frames, positions, resolved, cyclic, problems⟩ := x
  cases frames with
  | nil => rfl
  | cons f rest => exact Prod.ext rfl (report_translate m _ _ _ _)

theorem reportCycle_translate (x : Expansion context) (span : Span) (n : String) (start : Nat) :
    (x.translate m).reportCycle (m.place span) n start = (x.reportCycle span n start).translate m := by
  simp only [reportCycle, report_translate]
  rfl

theorem enter_translate (x : Expansion context) (span : Span) (n : String) :
    (x.translate m).enter system (m.place span) n =
      ((x.enter system span n).1, (x.enter system span n).2.translate m) := by
  have hcyclic : (x.translate m).cyclic = x.cyclic := rfl
  have hpositions : (x.translate m).positions = x.positions := rfl
  have hresolved : (x.translate m).resolved = x.resolved := rfl
  unfold enter
  rw [hcyclic, hpositions, hresolved]
  split
  · rfl
  · split
    · rw [reportCycle_translate]
    · split
      · rfl
      · split <;> rfl

/-- **A step does the same** in other places and contexts. -/
theorem step_translate (x : Expansion context) (span : Span) (f : Frame) (rest : List Frame) :
    (x.translate m).step system (m.place span) f rest =
      ((x.step system span f rest).1, (x.step system span f rest).2.translate m) := by
  have hleave : (x.translate m).leave f rest = (x.leave f rest).translate m := rfl
  have hnext : ∀ frames, ({ x.translate m with frames } : Expansion context') = translate m { x with frames } :=
    fun _ => rfl
  unfold step
  cases f.pending with
  | nil =>
    simp only [hleave, absorb_translate]
    split <;> rfl
  | cons p more =>
    simp only [hnext, emptyReference_translate, absorb_translate, enter_translate]
    split
    · rfl
    · generalize enter system span p.1 (_ : Expansion context) = entered
      obtain ⟨d, y⟩ := entered
      cases d with
      | none => rfl
      | some d => exact Prod.ext rfl (absorb_translate m y d)

/-- **A run ends the same** in other places and contexts. -/
theorem run_translate (x : Expansion context) (span : Span) :
    (x.translate m).run system (m.place span) = ((x.run system span).1, (x.run system span).2.translate m) := by
  induction x using run.induct system span with
  | case1 x hx => rw [run_of_frames_eq_nil hx, run_of_frames_eq_nil (x := x.translate m) hx]
  | case2 x f rest hx d y hstep =>
    have hstep' : (x.translate m).step system (m.place span) f rest = (some d, y.translate m) := by
      rw [step_translate, hstep]
    rw [run_of_step_eq_some hx hstep, run_of_step_eq_some (x := x.translate m) hx hstep']
  | case3 x f rest hx y hstep ih =>
    have hstep' : (x.translate m).step system (m.place span) f rest = (none, y.translate m) := by
      rw [step_translate, hstep]
    rw [run_of_step_eq_none hx hstep, run_of_step_eq_none (x := x.translate m) hx hstep', ih]

theorem resolveName_translate (x : Expansion context) (span : Span) (n : String) :
    (x.translate m).resolveName system (m.place span) n =
      ((x.resolveName system span n).1, (x.resolveName system span n).2.translate m) := by
  unfold resolveName
  rw [enter_translate]
  cases x.enter system span n with
  | mk d y =>
    cases d with
    | some d => rfl
    | none => exact run_translate m y span

end Expansion

/-! ### Expressions -/

namespace Evaluation

/-- The terms are resolved one after the other in both contexts. -/
theorem foldl_addTerm_translate (m : Translation context context') (system : UnitSystem) (e : Expression)
    (d : Dimension) (x : Expansion context) :
    (e.map (Term.relocate m.place)).foldl (addTerm system) (d, x.translate m) =
      ((e.foldl (addTerm system) (d, x)).1, (e.foldl (addTerm system) (d, x)).2.translate m) := by
  induction e generalizing d x with
  | nil => rfl
  | cons t e ih =>
    have hterm : addTerm system (d, x.translate m) (t.relocate m.place) =
        ((addTerm system (d, x) t).1, (addTerm system (d, x) t).2.translate m) := by
      simp only [addTerm, Term.relocate, Expansion.resolveName_translate]
    rw [List.map_cons, List.foldl_cons, List.foldl_cons, hterm, ih]

/-- **Terms are resolved alike in all places and in all contexts**, and the problems are found there. -/
theorem ofIn_translate (m : Translation context context') (system : UnitSystem) (e : Expression) :
    ofIn context' system (e.map (Term.relocate m.place)) =
      ⟨(ofIn context system e).units, (ofIn context system e).problems.map m.word⟩ := by
  have hfold := foldl_addTerm_translate m system e .dimensionless .initial
  exact congrArg (fun s : Dimension × Expansion context' => Evaluation.mk s.1 s.2.problems) hfold

/-- **An expression is resolved alike in all contexts**, up to what is made of the problems of definitions. -/
theorem ofIn_reword (word : δ → δ') (h : ∀ p, word (Reporting.report context p) = Reporting.report context' p)
    (system : UnitSystem) (e : Expression) :
    ofIn context' system e = ⟨(ofIn context system e).units, (ofIn context system e).problems.map word⟩ := by
  have hresolved := ofIn_translate (.rewording word h) system e
  have hterms : e.map (Term.relocate id) = e := List.map_id e
  rwa [Translation.rewording, hterms] at hresolved

theorem of_relocate (g : Span → Span) (system : UnitSystem) (e : Expression) :
    of system (e.map (Term.relocate g)) =
      ⟨(of system e).units, (of system e).problems.map (Problem.relocate g)⟩ :=
  ofIn_translate (.relocation g) system e

/-- **The units of an expression depend on the names and exponents of its terms**, not on where they stand. -/
theorem units_congr (system : UnitSystem) {e e' : Expression} (h : e.map Term.power = e'.map Term.power) :
    (of system e).units = (of system e').units := by
  have hplaced : ∀ e : Expression, e.map (Term.relocate fun _ => Span.insertion 0) =
      (e.map Term.power).map fun p => ⟨p.1, p.2, Span.insertion 0⟩ := by
    intro e
    rw [List.map_map]
    rfl
  have hunits : ∀ e : Expression, (of system (e.map (Term.relocate fun _ => Span.insertion 0))).units =
      (of system e).units := by
    intro e
    rw [of_relocate]
  -- in one place the two expressions are the same
  rw [← hunits e, ← hunits e', hplaced, hplaced, h]

end Evaluation

/-! ### Resolutions -/

variable (messages : MessageCatalog) (system : UnitSystem)

/-- The problems of a source are reported in the words of the catalog. -/
theorem Parse.ofSourceIn_eq (source : String) :
    ofSourceIn (⟨messages, system⟩ : ResolutionContext) source =
      ⟨(ofSource source).expression, (ofSource source).problems.map messages.diagnose⟩ :=
  ofSourceIn_reword messages.diagnose (fun _ => rfl) source

/-- And so are those of definitions. -/
theorem Evaluation.ofIn_eq (e : Expression) :
    ofIn (⟨messages, system⟩ : ResolutionContext) system e =
      ⟨(of system e).units, (of system e).problems.map messages.diagnose⟩ :=
  ofIn_reword messages.diagnose (fun _ => rfl) system e

/-- **A resolution reports in the words of its catalog what is found without one.** -/
theorem Resolution.of_eq (source : String) :
    of messages system source =
      { source
        expression := (Parse.ofSource source).expression
        units := (Evaluation.of system (Parse.ofSource source).expression).units
        diagnostics := ((Parse.ofSource source).problems ++
          (Evaluation.of system (Parse.ofSource source).expression).problems).map messages.diagnose } := by
  simp only [of, Parse.ofSourceIn_eq, Evaluation.ofIn_eq, List.map_append]

end Dimensional
