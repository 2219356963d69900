import Dimensional.Proofs.Dimension.Exponents
import Dimensional.Proofs.Expression.Power
import Dimensional.Proofs.Resolution.Place

/-!
# Reading back a dimension

The text of a dimension is an expression. In a unit system in which the names of the dimension are base units it
resolves to the dimension, without problems (`resolution_of_text`). The empty product is read back from `1`, and from
the empty text.

The exponent `Exponent.least` is left out: its superscripts are read as the exponent next to it.
-/

namespace Dimensional

/-! ### Expressions over base units -/

namespace Evaluation

open Expansion

variable {system : UnitSystem} {e : Expression}

theorem resolveName_base {n : String} (hb : system.definition n = .base) (span : Span) :
    (.initial : Expansion ()).resolveName system span n = (.base n 1, .initial) := by
  rcases resolveName_cases .initial system span n with ⟨d, hk, he⟩ | ⟨hf, -⟩
  · cases hk with
    | reported hc => cases hc
    | remembered hc hr => cases hr
    | base _ => exact he
  · exact absurd hb hf.compound

theorem after_of_base (h : ∀ t ∈ e, system.definition t.name = .base) :
    after system e = (.ofList (e.map Term.power), .initial) := by
  induction e using List.reverseRecOn with
  | nil => rfl
  | append_singleton e t ih =>
    have hrest := ih fun u hu => h u (List.mem_append_left _ hu)
    have ht : system.definition t.name = .base := h t (by simp)
    have hproduct := Dimension.ofList_append_singleton (e.map Term.power) t.power
    rw [after_append_singleton, hrest, addTerm, resolveName_base ht, List.map_append]
    simp only [Dimension.mulPow_eq, Dimension.mul_pow_base]
    exact congrArg (·, Expansion.initial) hproduct.symm

/-- **An expression over base units is the product of its powers.** -/
theorem of_base (h : ∀ t ∈ e, system.definition t.name = .base) :
    of system e = ⟨.ofList (e.map Term.power), []⟩ := by
  rw [of_eq_after, after_of_base h]
  rfl

end Evaluation

/-! ### What a source is read as -/

namespace Parse

/-- A source is read without problems, as some powers of names. -/
def Reads (source : String) (powers : List (String × Exponent)) : Prop :=
  (ofSource source).problems = [] ∧ (ofSource source).expression.map Term.power = powers

theorem reads_of_isUnits {source : String} {e : List Factor} (h : Grammar.IsUnits (scan source) e) :
    Reads source (e.map fun f => (f.name, .ofInt f.exponent)) := by
  rw [Reads, ofSource, ofTokens_of_isUnits h]
  exact ⟨rfl, List.map_map⟩

/-- **Texts of powers with blanks between them are read as these powers.** -/
theorem reads_powers {text : String × Exponent → String} {ps : List (String × Exponent)}
    (h : ∀ p ∈ ps, Grammar.IsPowerText (text p).toList (p.1, p.2.val)) :
    Reads (" ".intercalate (ps.map text)) ps := by
  obtain ⟨f, hf, hfp⟩ := Grammar.isTerms?_spaced h 0
  have htext : (" ".intercalate (ps.map text)).toList = [' '].intercalate (ps.map fun p => (text p).toList) := by
    rw [String.toList_intercalate, List.map_map]
    rfl
  have hunits : Grammar.IsUnits (scan (" ".intercalate (ps.map text))) f := by
    rw [scan_eq_scanFrom, htext]
    exact .whole hf
  -- what is read are integers; those of the powers are exponents, so nothing is lost
  have hback : f.map (fun k => (k.name, Exponent.ofInt k.exponent)) = ps := by
    have hmap := congrArg (List.map fun p => (p.1, Exponent.ofInt p.2)) hfp
    rw [List.map_map, List.map_map] at hmap
    refine hmap.trans (List.map_id'' (fun e => ?_) _)
    exact Prod.ext rfl (Exponent.ofInt_val e.2)
  have hreads := reads_of_isUnits hunits
  rwa [hback] at hreads

end Parse

namespace Dimension

open Grammar

variable {d : Dimension} {system : UnitSystem}

/-! ### The text of a dimension -/

/-- What a dimension needs to be read back: all its names can be written, and no exponent is the least one. -/
def Readable (d : Dimension) : Prop :=
  ∀ e ∈ d.entries, IsName e.1 ∧ e.2.val ≠ Exponent.least

/-- The text of a power is a name with the exponent, wherever it stands. -/
theorem isPowerText_powerText {e : String × Exponent} (hn : IsName e.1) (he : e.2.val ≠ Exponent.least) :
    IsPowerText (powerText e).toList (e.1, e.2.val) := by
  refine isPowerText_of_script .superscript hn he ?_
  rw [powerText, ← toList_superscript]
  split
  · rfl
  · exact String.toList_append

/-- **The text of a dimension is read as its powers.** -/
theorem reads_text (h : d.Readable) : Parse.Reads d.text d.entries :=
  Parse.reads_powers fun e he => isPowerText_powerText (h e he).1 (h e he).2

/-- The number 1 is read as no power at all. -/
theorem reads_one : Parse.Reads "1" [] := by
  have hscan : scan "1" = [⟨.natural 1, 0, 1⟩] := scanFrom_digits ⟨['1'], by decide, List.all_eq_true.mp rfl⟩ 0
  have hunits : IsUnits (scan "1") [] := by
    rw [hscan]
    exact .whole (.some (.one rfl rfl) .nil)
  exact Parse.reads_of_isUnits hunits

theorem reads_display (h : d.Readable) : Parse.Reads d.display d.entries := by
  unfold display
  split
  · next hd =>
    have hentries : d.entries = [] := List.isEmpty_iff.mp hd
    rw [hentries]
    exact reads_one
  · exact reads_text h

/-! ### Resolution -/

/-- A source that is read as the powers of a dimension resolves to it. -/
theorem resolution_of_reads (messages : MessageCatalog) {source : String} (hs : Parse.Reads source d.entries)
    (hb : ∀ e ∈ d.entries, system.definition e.1 = .base) :
    (Resolution.of messages system source).diagnostics = [] ∧ (Resolution.of messages system source).units = d := by
  obtain ⟨hclean, hpowers⟩ := hs
  have hbase : ∀ t ∈ (Parse.ofSource source).expression, system.definition t.name = .base := by
    intro t ht
    exact hb t.power (hpowers ▸ List.mem_map_of_mem ht)
  have heval := Evaluation.of_base hbase
  rw [hpowers, ofList_entries] at heval
  rw [Resolution.of_eq, heval, hclean]
  exact ⟨rfl, rfl⟩

/-- **Dimensions are read back.** Where the names of a dimension are base units that can be written, and none of its
exponents is the least one, both texts of the dimension resolve to it without problems. -/
theorem resolution_of_text (messages : MessageCatalog) (h : d.Readable)
    (hb : ∀ e ∈ d.entries, system.definition e.1 = .base) :
    ∀ source ∈ [d.display, d.text],
      (Resolution.of messages system source).diagnostics = [] ∧ (Resolution.of messages system source).units = d := by
  intro source hs
  rcases List.mem_cons.mp hs with rfl | hs
  · exact resolution_of_reads messages (reads_display h) hb
  · rw [List.mem_singleton.mp hs]
    exact resolution_of_reads messages (reads_text h) hb

/-- Of the two names one is defined as a base unit, the other is not mentioned; its exponent is the least that is read
back. -/
theorem resolution_of_text_si :
    let d := ofList [("SI.metre", 2), ("turn", -9223372036854775807)]
    d.text = "SI.metre² turn⁻⁹²²³³⁷²⁰³⁶⁸⁵⁴⁷⁷⁵⁸⁰⁷" ∧ d.Readable ∧
      (∀ e ∈ d.entries, UnitSystem.si.definition e.1 = .base) ∧
      ∀ source ∈ [d.display, d.text],
        (Resolution.of .english .si source).diagnostics = [] ∧ (Resolution.of .english .si source).units = d := by
  intro d
  have hentries : d.entries = [("SI.metre", 2), ("turn", -9223372036854775807)] := by decide
  have hmetre : IsName "SI.metre" := .of_all (by decide) (by decide)
  have hturn : IsName "turn" := .of_all (by decide) (by decide)
  have hread : d.Readable := by
    intro e he
    rw [hentries] at he
    rcases List.mem_cons.mp he with rfl | he
    · exact ⟨hmetre, by decide⟩
    · rw [List.mem_singleton.mp he]
      exact ⟨hturn, by decide⟩
  have hbase : ∀ e ∈ d.entries, UnitSystem.si.definition e.1 = .base := by
    rw [hentries]
    decide
  exact ⟨rfl, hread, hbase, resolution_of_text .english hread hbase⟩

end Dimension
end Dimensional
