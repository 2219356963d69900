import Dimensional.Proofs.Expression.Progress
import Dimensional.Proofs.Resolution.Cycles
import Dimensional.Proofs.Resolution.Place

/-!
# Wordings

A message catalog gives the problems of a resolution their texts and has no other part in it: with two catalogs a source
is read and resolved in lock step (`of_reword`). The problems of the source itself come before those of the definitions
that it reaches, and the details tell them apart: about a source nothing more than a token is known
(`inSource_of_parse`), about a definition always a cycle or what is malformed (`not_inSource_of_evaluation`). The former
are the same for all unit systems.

The main statement is `catalogs_word_diagnostics`.
-/

namespace Dimensional

/-- Whether a problem is one of the source, and not of a definition that the source reaches. -/
def Problem.inSource (p : Problem) : Bool :=
  match p.detail with
  | .none | .token _ => true
  | .cycle _ _ | .malformed _ => false

namespace Resolution

variable {source : String} {messages : MessageCatalog} {system : UnitSystem}

theorem inSource_of_parse (messages : MessageCatalog) (source : String) :
    ∀ d ∈ (Parse.ofSource source).problems.map messages.diagnose, d.inSource = true := by
  refine List.forall_mem_map.mpr fun p hp => ?_
  cases Parse.problems_at (scan source) p hp with
  | unexpected => rfl
  | missing => rfl

theorem not_inSource_of_evaluation (messages : MessageCatalog) (system : UnitSystem) (e : Expression) :
    ∀ d ∈ (Evaluation.of system e).problems.map messages.diagnose, d.inSource = false := by
  refine List.forall_mem_map.mpr fun p hp => ?_
  cases (Evaluation.surveyed_after system e).reported.arises p hp with
  | cycle => rfl
  | malformed => rfl

theorem diagnostics_eq_append (messages : MessageCatalog) (system : UnitSystem) (source : String) :
    (of messages system source).diagnostics = (Parse.ofSource source).problems.map messages.diagnose ++
      (Evaluation.of system (Parse.ofSource source).expression).problems.map messages.diagnose := by
  rw [of_eq, List.map_append]

/-- The diagnostics of the source itself are what the parser found. -/
theorem filter_inSource (messages : MessageCatalog) (system : UnitSystem) (source : String) :
    (of messages system source).diagnostics.filter (fun d => d.inSource) =
      (Parse.ofSource source).problems.map messages.diagnose := by
  have hmore := not_inSource_of_evaluation messages system (Parse.ofSource source).expression
  rw [diagnostics_eq_append, List.filter_append, List.filter_eq_self.mpr (inSource_of_parse messages source),
    List.filter_eq_nil_iff.mpr fun d hd => Bool.eq_false_iff.mp (hmore d hd), List.append_nil]

/-- The other ones are what was found in definitions. -/
theorem filter_not_inSource (messages : MessageCatalog) (system : UnitSystem) (source : String) :
    (of messages system source).diagnostics.filter (fun d => !d.inSource) =
      (Evaluation.of system (Parse.ofSource source).expression).problems.map messages.diagnose := by
  have hfound := inSource_of_parse messages source
  have hmore := not_inSource_of_evaluation messages system (Parse.ofSource source).expression
  rw [diagnostics_eq_append, List.filter_append, List.filter_eq_nil_iff.mpr fun d hd => by simp [hfound d hd],
    List.filter_eq_self.mpr fun d hd => by simp [hmore d hd], List.nil_append]

theorem message_of_mem {d : Diagnostic} (h : d ∈ (of messages system source).diagnostics) :
    d.message = messages.text d.id := by
  rw [of_eq] at h
  obtain ⟨p, -, rfl⟩ := List.mem_map.mp h
  rfl

/-- **Two runs with different catalogs go on alike.** What the one reports is what the other reports, in the words of
its own catalog. -/
theorem of_reword (messages messages' : MessageCatalog) (system : UnitSystem) (source : String) :
    of messages' system source =
      { of messages system source with
        diagnostics := (of messages system source).diagnostics.map fun d => messages'.diagnose d.toProblem } := by
  let reword := fun d : Diagnostic => messages'.diagnose d.toProblem
  have hparse : Parse.ofSourceIn (⟨messages', system⟩ : ResolutionContext) source =
      ⟨(Parse.ofSourceIn (⟨messages, system⟩ : ResolutionContext) source).expression,
        (Parse.ofSourceIn (⟨messages, system⟩ : ResolutionContext) source).problems.map reword⟩ :=
    Parse.ofSourceIn_reword reword (fun _ => rfl) source
  have heval : ∀ e, Evaluation.ofIn (⟨messages', system⟩ : ResolutionContext) system e =
      ⟨(Evaluation.ofIn (⟨messages, system⟩ : ResolutionContext) system e).units,
        (Evaluation.ofIn (⟨messages, system⟩ : ResolutionContext) system e).problems.map reword⟩ :=
    Evaluation.ofIn_reword reword (fun _ => rfl) system
  simp only [of, hparse, heval, List.map_append, reword]

/-- **Catalogs change only texts.** With another catalog a source has the same terms and units, succeeds or not alike,
and has the same problems in the same order. The text of a problem is the catalog's for its kind, or the built-in one if
the catalog has none. With another unit system the parser does the same, so the terms are the same, and so are the
diagnostics of the source, which come before those of definitions. -/
theorem catalogs_word_diagnostics (messages messages' : MessageCatalog) (system system' : UnitSystem) (source : String) :
    ((of messages system source).expression = (of messages' system source).expression ∧
      (of messages system source).units = (of messages' system source).units ∧
      (of messages system source).isOk = (of messages' system source).isOk ∧
      (of messages system source).diagnostics.map Diagnostic.toProblem =
        (of messages' system source).diagnostics.map Diagnostic.toProblem) ∧
    (∀ d ∈ (of messages system source).diagnostics,
      (∀ text, messages.override d.id = some text → d.message = text) ∧
      (messages.override d.id = none → d.message = d.id.defaultText)) ∧
    Parse.ofSourceIn (⟨messages, system⟩ : ResolutionContext) source =
      Parse.ofSourceIn (⟨messages, system'⟩ : ResolutionContext) source ∧
    (of messages system source).expression = (of messages system' source).expression ∧
    (of messages system source).diagnostics.filter (fun d => d.inSource) =
      (of messages system' source).diagnostics.filter (fun d => d.inSource) ∧
    (of messages system source).diagnostics =
      (of messages system source).diagnostics.filter (fun d => d.inSource) ++
        (of messages system source).diagnostics.filter (fun d => !d.inSource) := by
  refine ⟨?_, fun d hd => ?_, ?_, ?_, ?_, ?_⟩
  · have hrun := of_reword messages messages' system source
    have hproblems : (of messages system source).diagnostics.map Diagnostic.toProblem =
        (of messages' system source).diagnostics.map Diagnostic.toProblem := by
      rw [hrun, List.map_map]
      rfl
    have hok : (of messages system source).isOk = (of messages' system source).isOk := by
      rw [hrun, isOk, isOk, List.isEmpty_map]
    rw [hrun]
    exact ⟨rfl, rfl, hrun ▸ hok, hrun ▸ hproblems⟩
  · rw [message_of_mem hd, MessageCatalog.text]
    refine ⟨fun text htext => ?_, fun hnone => ?_⟩
    · rw [htext, Option.getD_some]
    · rw [hnone, Option.getD_none]
  · rw [Parse.ofSourceIn_eq, Parse.ofSourceIn_eq]
  · rw [of_eq, of_eq]
  · rw [filter_inSource, filter_inSource]
  · rw [filter_inSource, filter_not_inSource, diagnostics_eq_append]

end Resolution
end Dimensional
