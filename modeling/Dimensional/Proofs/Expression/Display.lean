import Dimensional.Proofs.Dimension.ReadBack
import Dimensional.Proofs.Expression.Progress
import Dimensional.Proofs.Expression.Tokenization
import Dimensional.Proofs.Text.Digits

/-!
# Displayed expressions

An expression is displayed with carets. What the parser accepts has names that can be written again, and exponents down
to the negation of the greatest one only, a denominator included. So what is displayed of it is read as the same powers.

The main statement is `display_read_back`.
-/

namespace Dimensional

variable {p : String × Exponent} {source : String}

/-! ### Powers with carets -/

theorem toList_caret (k : Int) : ("^" ++ toString k).toList = Script.caret.write (.ofInt k) := by
  rw [String.toList_append, toList_toString]
  simp [Script.write, Numeral.ofInt, DigitRun.ofNat]

/-- A power that is displayed is a name with the exponent, wherever it stands. -/
theorem isPowerText_caretText (hn : IsName p.1) (he : p.2.val ≠ Exponent.least) :
    Grammar.IsPowerText (Term.caretText p).toList (p.1, p.2.val) := by
  refine Grammar.isPowerText_of_script .caret hn he ?_
  rw [Term.caretText, ← toList_caret]
  split
  · rfl
  · rw [String.append_assoc, String.toList_append]
    rfl

/-! ### What is accepted -/

namespace Parse

open Grammar

/-- The names of an accepted source are words of it. -/
theorem isName_of_accepted (h : (ofSource source).problems = []) :
    ∀ t ∈ (ofSource source).expression, IsName t.name := by
  intro t ht
  obtain ⟨u, hu, hl, -⟩ := exists_name_of_accepted h t ht
  have hreads := (tokenizes_scan source).reads u hu
  rw [hl] at hreads
  exact hreads.isName

/-- The exponents of an accepted source keep their size when they are negated. -/
theorem bounds_of_accepted (h : (ofSource source).problems = []) :
    ∀ t ∈ (ofSource source).expression, -Exponent.greatest ≤ t.exponent.val ∧ t.exponent.val ≤ Exponent.greatest := by
  intro t ht
  exact (isUnits_ofTokens h).bounded _ (List.mem_map_of_mem ht)

/-- **What is displayed of an accepted source is read as the same powers**, and all its exponents have a negation. -/
theorem display_read_back (h : (ofSource source).problems = []) :
    (∀ t ∈ (ofSource source).expression,
      -Exponent.greatest ≤ t.exponent.val ∧ t.exponent.val ≤ Exponent.greatest) ∧
    Reads (ofSource source).expression.display ((ofSource source).expression.map Term.power) := by
  refine ⟨bounds_of_accepted h, reads_powers fun p hp => ?_⟩
  obtain ⟨t, ht, rfl⟩ := List.mem_map.mp hp
  apply isPowerText_caretText (isName_of_accepted h t ht)
  have hbounds := bounds_of_accepted h t ht
  show t.exponent.val ≠ Exponent.least
  simp only [Exponent.least, Exponent.greatest] at *
  omega

/-- An exponent above the range in the denominator, the number 1, and a name that is met twice. -/
theorem display_read_back_pressure :
    (ofSource "m/s^99999999999999999999 1 kg^-0 m").problems = [] ∧
    (ofSource "m/s^99999999999999999999 1 kg^-0 m").expression.display = "m s^-9223372036854775807 kg^0 m^-1" ∧
    Reads "m s^-9223372036854775807 kg^0 m^-1" [("m", 1), ("s", -9223372036854775807), ("kg", 0), ("m", -1)] := by
  have hclean : (ofSource "m/s^99999999999999999999 1 kg^-0 m").problems = [] := by decide +kernel
  have hdisplay : (ofSource "m/s^99999999999999999999 1 kg^-0 m").expression.display =
      "m s^-9223372036854775807 kg^0 m^-1" := by decide +kernel
  have hpowers : (ofSource "m/s^99999999999999999999 1 kg^-0 m").expression.map Term.power =
      [("m", 1), ("s", -9223372036854775807), ("kg", 0), ("m", -1)] := by decide +kernel
  have hread := (display_read_back hclean).2
  rw [hdisplay, hpowers] at hread
  exact ⟨hclean, hdisplay, hread⟩

end Parse
end Dimensional
