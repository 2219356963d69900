import Dimensional.Proofs.Expression.Tokenization
import Dimensional.Proofs.Expression.Writing

/-!
# Blanks between tokens

Blanks that are put in at a place where no token is cut in two spread the tokens and change nothing else
(`scan_spread`). The parser reads tokens alike in all places (`Parse.ofTokens_relocate`), and so are the terms resolved
(`Evaluation.of_relocate`). What is found out about a text is therefore the same after its characters have been spread,
in the places that they have then, also where the text has problems.

The main statement is `spacing_irrelevant`.
-/

namespace Dimensional

/-! ### Scanning -/

section Scanning

variable {a b w : String}

/-- A token is cut in two at a place. -/
def Token.Straddles (t : Token) (place : Nat) : Prop := t.span.start < place ∧ place < t.span.stop

instance (t : Token) (place : Nat) : Decidable (t.Straddles place) := inferInstanceAs (Decidable (_ ∧ _))

/-- A run over the place between two parts of a text would be a token there, or two of them that run together. -/
theorem parted_of_not_straddles (h : ∀ t ∈ scan (a ++ b), ¬ t.Straddles a.length) : Parted a.toList b.toList := by
  intro x hx y hy
  rw [Bool.eq_false_iff]
  intro hc
  obtain ⟨hclass, hsymbol, hblank⟩ := continuesRun_iff.mp hc
  have htokens := tokenizes_scan (a ++ b)
  rw [String.toList_append] at htokens
  obtain ⟨front, hfront⟩ := List.getLast?_eq_some_iff.mp hx
  obtain ⟨rest, hrest⟩ := List.head?_eq_some_iff.mp hy
  have hlength : a.length = front.length + 1 := by
    rw [← String.length_toList, hfront, List.length_append, List.length_singleton]
  have hlast : (a.toList ++ b.toList)[front.length]? = some x := by simp [hfront]
  have hnext : (a.toList ++ b.toList)[a.length]? = some y := by simp [hfront, hrest, hlength]
  obtain ⟨s, hs, hcov⟩ := htokens.exists_covers (Nat.zero_le _) hlast hblank
  obtain ⟨t, ht, hcov'⟩ := htokens.exists_covers (Nat.zero_le _) hnext (hclass ▸ hblank)
  have hstart : s.span.start < a.length := by
    have := hcov.1
    omega
  have hstop : s.span.stop = a.length := by
    have hle : ¬ a.length < s.span.stop := fun hlt => h s hs ⟨hstart, hlt⟩
    have := hcov.2
    omega
  have htouch : s.span.stop = t.span.start := by
    have hge : ¬ t.span.start < a.length := fun hlt => h t ht ⟨hlt, hcov'.2⟩
    have := hcov'.1
    omega
  have hclass_s := htokens.classOf hs hcov hlast
  have hclass_t := htokens.classOf ht hcov' hnext
  refine htokens.maximal s hs t ht htouch (Lexeme.runTogether_iff.mpr ⟨?_, hclass_s ▸ hsymbol⟩)
  rw [← hclass_s, ← hclass_t, hclass]

/-- The blanks are no part of a run, so none crosses from the front to what is behind them. -/
theorem Parted.blanks_append {a b w : List Char} (h : Parted a b) (hw : Grammar.AllBlank w) : Parted a (w ++ b) := by
  cases w with
  | nil => exact h
  | cons c w => exact (opensGap_blank (hw c List.mem_cons_self)).parted a

/-- **Blanks between tokens spread the tokens.** Those that begin behind the place are shifted, the others stay. -/
theorem scan_spread (hw : Grammar.AllBlank w.toList) (h : ∀ t ∈ scan (a ++ b), ¬ t.Straddles a.length) :
    scan (a ++ w ++ b) = (scan (a ++ b)).map fun t =>
      if a.length ≤ t.span.start then t.relocate (Span.shift w.length) else t := by
  have hparted := parted_of_not_straddles h
  have htext : (a ++ w ++ b).toList = a.toList ++ (w.toList ++ b.toList) := by simp
  have hfront : ∀ t ∈ scan a, ¬ a.length ≤ t.span.start := by
    intro t ht
    have hpos := (tokenizes_scan a).nonempty t ht
    have hle := (tokenizes_scan a).within t ht
    rw [String.length_toList] at hle
    omega
  have hbehind : ∀ t ∈ scanFrom a.length b.toList, a.length ≤ t.span.start := by
    rw [← String.length_toList]
    exact ((tokenizes_append_iff a.toList b.toList _).mpr rfl).behind
  rw [scan_eq_scanFrom, scan_eq_scanFrom, htext, String.toList_append, scanFrom_append (hparted.blanks_append hw),
    scanFrom_append hparted, Grammar.scanFrom_blanks hw, scanFrom_add, List.map_append, Nat.zero_add,
    String.length_toList, String.length_toList, ← scan_eq_scanFrom]
  congr 1
  · rw [List.map_congr_left fun t ht => if_neg (hfront t ht), List.map_id'']
    exact fun _ => rfl
  · exact List.map_congr_left fun t ht => (if_pos (hbehind t ht)).symm

/-- The tokens of the spread text are those of the text in their new places. -/
theorem scan_eq_relocate (hw : Grammar.AllBlank w.toList) (h : ∀ t ∈ scan (a ++ b), ¬ t.Straddles a.length) :
    scan (a ++ w ++ b) = (scan (a ++ b)).map (Token.relocate (Span.spread a.length w.length)) := by
  rw [scan_spread hw h]
  refine List.map_congr_left fun t ht => ?_
  have hpos := (tokenizes_scan (a ++ b)).nonempty t ht
  have hnot := h t ht
  rw [Token.Straddles] at hnot
  split
  · rw [Token.relocate, Token.relocate, Span.spread_eq_shift (by omega)]
  · rw [Token.relocate, Span.spread_eq_self (by omega)]

end Scanning

/-! ### Sources -/

namespace Resolution

/-- **Blanks between tokens do not count.** Put in at a place that cuts no token in two, they spread the tokens, the
terms and the diagnostics of a source, and leave its units as they are. -/
theorem spacing_irrelevant {a w b : String} (hw : Grammar.AllBlank w.toList)
    (hcut : ∀ t ∈ scan (a ++ b), ¬ t.Straddles a.length) :
    (scan (a ++ w ++ b) = (scan (a ++ b)).map fun t =>
      if a.length ≤ t.span.start then t.relocate (Span.shift w.length) else t) ∧
    ∀ (messages : MessageCatalog) (system : UnitSystem),
      (of messages system (a ++ w ++ b)).units = (of messages system (a ++ b)).units ∧
      (of messages system (a ++ w ++ b)).expression =
        (of messages system (a ++ b)).expression.map (Term.relocate (Span.spread a.length w.length)) ∧
      (of messages system (a ++ w ++ b)).diagnostics =
        (of messages system (a ++ b)).diagnostics.map (Diagnostic.relocate (Span.spread a.length w.length)) := by
  refine ⟨scan_spread hw hcut, fun messages system => ?_⟩
  have hparse := Parse.ofTokens_relocate (displaces_spread a.length w.length) (scan (a ++ b))
  rw [← scan_eq_relocate hw hcut, ← Parse.ofSource, ← Parse.ofSource] at hparse
  simp only [of_eq, hparse, Evaluation.of_relocate, ← List.map_append, List.map_map, true_and]
  rfl

/-- Blanks within an exponent, in front of a star that no term follows. -/
theorem spacing_irrelevant_star :
    Grammar.AllBlank "\t ".toList ∧ (∀ t ∈ scan "m^-2*/ s", ¬ t.Straddles "m^".length) ∧
      (Parse.ofSource "m^-2*/ s").problems = [⟨.unitNameRequired, ⟨5, 5⟩, .none⟩] ∧
      (scan "m^\t -2*/ s" = (scan "m^-2*/ s").map fun t =>
        if 2 ≤ t.span.start then t.relocate (Span.shift 2) else t) ∧
      ∀ (messages : MessageCatalog) (system : UnitSystem),
        (of messages system "m^\t -2*/ s").units = (of messages system "m^-2*/ s").units ∧
        (of messages system "m^\t -2*/ s").expression =
          (of messages system "m^-2*/ s").expression.map (Term.relocate (Span.spread 2 2)) ∧
        (of messages system "m^\t -2*/ s").diagnostics =
          (of messages system "m^-2*/ s").diagnostics.map (Diagnostic.relocate (Span.spread 2 2)) := by
  have hblank : Grammar.AllBlank "\t ".toList := List.all_eq_true.mp rfl
  have htext : "m^" ++ "-2*/ s" = "m^-2*/ s" := rfl
  have hspread : "m^" ++ "\t " ++ "-2*/ s" = "m^\t -2*/ s" := rfl
  have hcut : ∀ t ∈ scan ("m^" ++ "-2*/ s"), ¬ t.Straddles "m^".length := by decide +kernel
  have hsame := spacing_irrelevant hblank hcut
  rw [hspread, htext] at hsame
  exact ⟨hblank, hcut, by decide +kernel, hsame⟩

end Resolution
end Dimensional
