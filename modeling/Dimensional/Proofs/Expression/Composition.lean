import Dimensional.Proofs.Expression.Relocation
import Dimensional.Proofs.Expression.Tokenization

/-!
# Sources put together

Two sources that are accepted are put together with a blank or a slash between them. No run of characters crosses from
one to the other, so the tokens are those of both (`scan_blank_between`, `scan_slash_between`), the later ones further on.
Without a slash a source is a list of terms, and what the grammar derives may be put behind it (`IsUnits.behind`).

The main statement is `compositional`.
-/

namespace Dimensional

variable {source : String}

/-! ### Scanning -/

theorem scan_blank_between (s₁ s₂ : String) :
    scan (s₁ ++ " " ++ s₂) = scan s₁ ++ (scan s₂).map (Token.relocate (Span.shift (s₁.length + 1))) := by
  have htext : (s₁ ++ " " ++ s₂).toList = s₁.toList ++ ' ' :: s₂.toList := by simp
  have hblank : isBlank ' ' = true := rfl
  rw [scan_eq_scanFrom, htext, scanFrom_append ((opensGap_blank hblank).parted _), scanFrom_cons_blank hblank,
    String.length_toList, Nat.zero_add, ← scan_eq_scanFrom, scanFrom_eq_shift]

theorem scan_slash_between (s₁ s₂ : String) :
    scan (s₁ ++ "/" ++ s₂) = scan s₁ ++ ⟨.slash, s₁.length, s₁.length + 1⟩ ::
      (scan s₂).map (Token.relocate (Span.shift (s₁.length + 1))) := by
  have htext : (s₁ ++ "/" ++ s₂).toList = s₁.toList ++ '/' :: s₂.toList := by simp
  have hslash : Lexeme.ofSymbol? '/' = some .slash := rfl
  rw [scan_eq_scanFrom, htext, scanFrom_append ((opensGap_symbol rfl).parted _), scanFrom_cons_symbol hslash,
    String.length_toList, Nat.zero_add, ← scan_eq_scanFrom, scanFrom_eq_shift]

/-- Where no slash is written there is no token for one. -/
theorem lexeme_ne_slash (h : '/' ∉ source.toList) : ∀ t ∈ scan source, t.lexeme ≠ .slash := by
  intro t ht hslash
  have hreads := (tokenizes_scan source).reads t ht
  rw [hslash] at hreads
  have hslice : t.span.slice source.toList = ['/'] := by
    generalize t.span.slice source.toList = cs at hreads
    cases hreads
    rfl
  have hmem : '/' ∈ t.span.slice source.toList := by
    rw [hslice]
    exact List.mem_singleton_self _
  exact h (List.mem_of_mem_drop (List.mem_of_mem_take hmem))

/-! ### Derivations -/

namespace Grammar

variable {ts us : List Token} {e f : List Factor}

theorem IsTail.append (h : IsTail ts e) (h' : IsTail us f) : IsTail (ts ++ us) (e ++ f) := by
  induction h with
  | nil => exact h'
  | juxtaposed h _ ih =>
    rw [List.append_assoc, List.append_assoc]
    exact .juxtaposed h ih
  | product hs h _ ih =>
    rw [List.append_assoc, List.append_assoc]
    exact .product hs h ih

/-- Terms behind terms need no star. -/
theorem IsTerms?.append (h : IsTerms? ts e) (h' : IsTerms? us f) : IsTerms? (ts ++ us) (e ++ f) := by
  cases h with
  | none => exact h'
  | some h hr =>
    rw [List.append_assoc, List.append_assoc]
    cases h' with
    | none => exact .some h (hr.append .nil)
    | some h' hr' => exact .some h (hr.append (.juxtaposed h' hr'))

theorem IsUnits.behind (h : IsTerms? ts e) (h' : IsUnits us f) : IsUnits (ts ++ us) (e ++ f) := by
  cases h' with
  | whole h' => exact .whole (h.append h')
  | fraction h' hs hb =>
    rw [← List.append_assoc, ← List.append_assoc]
    exact .fraction (h.append h') hs hb

/-- A whole expression without a slash is a list of terms. -/
theorem IsUnits.isTerms? (h : IsUnits ts e) (hslash : ∀ t ∈ ts, t.lexeme ≠ .slash) : IsTerms? ts e := by
  cases h with
  | whole h => exact h
  | fraction h hs hb => exact absurd hs (hslash _ (List.mem_append_right _ List.mem_cons_self))

end Grammar

/-! ### What is accepted -/

namespace Parse

open Grammar

/-- An accepted source is derived wherever it stands. -/
theorem isUnits_shift (h : (ofSource source).problems = []) (width : Nat) :
    IsUnits ((scan source).map (Token.relocate (Span.shift width)))
      (((ofSource source).expression.map (Term.relocate (Span.shift width))).map Factor.ofTerm) := by
  -- a text that is spread at its start is shifted, as no token ends there
  have hspan : ∀ t ∈ scan source, Span.spread 0 width t.span = t.span.shift width := fun t ht =>
    Span.spread_eq_shift (Nat.zero_lt_of_lt ((tokenizes_scan source).nonempty t ht))
  have htokens : (scan source).map (Token.relocate (Span.shift width)) =
      (scan source).map (Token.relocate (Span.spread 0 width)) := by
    refine List.map_congr_left fun t ht => ?_
    rw [Token.relocate, Token.relocate, hspan t ht]
  have hterms : (ofSource source).expression.map (Term.relocate (Span.shift width)) =
      (ofSource source).expression.map (Term.relocate (Span.spread 0 width)) := by
    refine List.map_congr_left fun u hu => ?_
    obtain ⟨t, ht, -, htu⟩ := exists_name_of_accepted h u hu
    rw [Term.relocate, Term.relocate, ← htu, hspan t ht]
  have hrelocate := ofTokens_relocate (displaces_spread 0 width) (scan source)
  have hclean : (ofTokens ((scan source).map (Token.relocate (Span.spread 0 width)))).problems = [] := by
    rw [hrelocate]
    exact List.map_eq_nil_iff.mpr h
  have hunits := isUnits_ofTokens hclean
  rw [hrelocate] at hunits
  rw [htokens, hterms]
  exact hunits

/-- **Accepted sources are read part by part.** With a source without a slash and then a blank in front of it, an accepted
source is read as it is alone, further on by the length of both. With a slash in place of the blank, a source that has
none itself is read with all exponents negated. -/
theorem compositional {s₁ s₂ : String} (h₁ : (ofSource s₁).problems = []) (h₂ : (ofSource s₂).problems = [])
    (hslash₁ : '/' ∉ s₁.toList) :
    ((ofSource (s₁ ++ " " ++ s₂)).problems = [] ∧
      (ofSource (s₁ ++ " " ++ s₂)).expression.map Factor.ofTerm = (ofSource s₁).expression.map Factor.ofTerm ++
        ((ofSource s₂).expression.map (Term.relocate (Span.shift (s₁.length + 1)))).map Factor.ofTerm) ∧
    ('/' ∉ s₂.toList → (ofSource (s₁ ++ "/" ++ s₂)).problems = [] ∧
      (ofSource (s₁ ++ "/" ++ s₂)).expression.map Factor.ofTerm = (ofSource s₁).expression.map Factor.ofTerm ++
        (((ofSource s₂).expression.map (Term.relocate (Span.shift (s₁.length + 1)))).map Factor.ofTerm).map
          Factor.inverse) := by
  have hfront : IsTerms? (scan s₁) ((ofSource s₁).expression.map Factor.ofTerm) :=
    (isUnits_ofTokens h₁).isTerms? (lexeme_ne_slash hslash₁)
  have hbehind := isUnits_shift h₂ (s₁.length + 1)
  constructor
  · rw [ofSource, scan_blank_between]
    exact units_complete (TokenStream.clean_ofTokens () _) (.behind hfront hbehind)
  · intro hslash₂
    have hbelow := hbehind.isTerms? fun t ht => by
      obtain ⟨u, hu, rfl⟩ := List.mem_map.mp ht
      exact lexeme_ne_slash hslash₂ u hu
    rw [ofSource, scan_slash_between]
    exact units_complete (TokenStream.clean_ofTokens () _) (.fraction hfront rfl hbelow)

/-- A signed exponent in front of the blank, and a denominator whose numerator is empty; then a number 1 as denominator,
which begins with a slash where the source in front of it is empty. -/
theorem compositional_newton :
    ((ofSource "kg m⁻²").problems = [] ∧ (ofSource "/s^02").problems = [] ∧ '/' ∉ "kg m⁻²".toList ∧
      (ofSource "kg m⁻² /s^02").problems = [] ∧
      (ofSource "kg m⁻² /s^02").expression.map Factor.ofTerm =
        [⟨"kg", 1, ⟨0, 2⟩⟩, ⟨"m", -2, ⟨3, 4⟩⟩, ⟨"s", -2, ⟨8, 9⟩⟩]) ∧
    ((ofSource "").problems = [] ∧ (ofSource "1 m⁻³").problems = [] ∧ '/' ∉ "".toList ∧ '/' ∉ "1 m⁻³".toList ∧
      (ofSource "/1 m⁻³").problems = [] ∧
      (ofSource "/1 m⁻³").expression.map Factor.ofTerm = [⟨"m", 3, ⟨3, 4⟩⟩]) := by
  have hfront : (ofSource "kg m⁻²").problems = [] := by decide +kernel
  have hbehind : (ofSource "/s^02").problems = [] := by decide +kernel
  have hempty : (ofSource "").problems = [] := by decide +kernel
  have hbelow : (ofSource "1 m⁻³").problems = [] := by decide +kernel
  have hfactors : (ofSource "kg m⁻²").expression.map Factor.ofTerm ++
      ((ofSource "/s^02").expression.map (Term.relocate (Span.shift ("kg m⁻²".length + 1)))).map Factor.ofTerm =
        [⟨"kg", 1, ⟨0, 2⟩⟩, ⟨"m", -2, ⟨3, 4⟩⟩, ⟨"s", -2, ⟨8, 9⟩⟩] := by decide +kernel
  have hinverse : (ofSource "").expression.map Factor.ofTerm ++
      (((ofSource "1 m⁻³").expression.map (Term.relocate (Span.shift ("".length + 1)))).map Factor.ofTerm).map
        Factor.inverse = [⟨"m", 3, ⟨3, 4⟩⟩] := by decide +kernel
  have hblank : "kg m⁻²" ++ " " ++ "/s^02" = "kg m⁻² /s^02" := rfl
  have hslash : "" ++ "/" ++ "1 m⁻³" = "/1 m⁻³" := rfl
  obtain ⟨hclean, hread⟩ := (compositional hfront hbehind (by decide)).1
  obtain ⟨hclean', hread'⟩ := (compositional hempty hbelow (by decide)).2 (by decide)
  rw [hblank] at hclean hread
  rw [hslash] at hclean' hread'
  exact ⟨⟨hfront, hbehind, by decide, hclean, hread.trans hfactors⟩,
    ⟨hempty, hbelow, by decide, by decide, hclean', hread'.trans hinverse⟩⟩

end Parse
end Dimensional
