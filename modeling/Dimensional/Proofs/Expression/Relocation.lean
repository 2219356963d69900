import Dimensional.Proofs.Expression.Lookahead

/-!
# Tokens in other places, problems in other words

The grammar does not depend on where tokens stand: it looks at the lengths of spans and at the ends of tokens, behind
which something can be missing. Nor does it depend on the context in which problems are reported: it looks at whether
something was reported, and not at what. So where a change of places keeps the lengths and takes the end of a token with
the token (`Displaces`), and what is reported in one context corresponds to what is reported in another one
(`Translation`), every rule reads the same, and what it returns and reports is found in the new places and words.

The main statement is `ofTokensIn_translate`. Spreading a text, by characters put in at one place of it, is a change of
places alone (`displaces_spread`, `ofTokens_relocate`).
-/

namespace Dimensional

/-! ### Places -/

namespace Span

/-- The place that a number of characters in front of a text makes of a place in it. -/
def shift (width : Nat) (s : Span) : Span := ⟨s.start + width, s.stop + width⟩

/-- The place that some characters, put in at `place`, make of a place that they do not divide. -/
def spread (place width : Nat) (s : Span) : Span :=
  if place < s.stop then s.shift width else s

theorem spread_eq_shift {place width : Nat} {s : Span} (h : place < s.stop) :
    Span.spread place width s = s.shift width :=
  if_pos h

theorem spread_eq_self {place width : Nat} {s : Span} (h : s.stop ≤ place) : Span.spread place width s = s :=
  if_neg (Nat.not_lt.mpr h)

end Span

def Token.relocate (g : Span → Span) (t : Token) : Token := { t with span := g t.span }

def Term.relocate (g : Span → Span) (t : Term) : Term := { t with span := g t.span }

def Problem.relocate (g : Span → Span) (p : Problem) : Problem := { p with span := g p.span }

def Diagnostic.relocate (g : Span → Span) (d : Diagnostic) : Diagnostic := { d with span := g d.span }

/-- A change of places that the grammar cannot see. What is missing behind a token moves with the end of the token, and
what is missing at the start stays there. -/
structure Displaces (g : Span → Span) : Prop where
  length : ∀ s, (g s).length = s.length
  insertion_stop : ∀ s : Span, g (Span.insertion s.stop) = Span.insertion (g s).stop
  insertion_zero : g (Span.insertion 0) = Span.insertion 0

theorem displaces_spread (place width : Nat) : Displaces (Span.spread place width) := by
  have hshift : ∀ s : Span, (s.shift width).length = s.length := by
    intro s
    simp only [Span.shift, Span.length]
    omega
  refine ⟨fun s => ?_, fun s => ?_, if_neg (Nat.not_lt_zero place)⟩
  · rw [Span.spread]
    split
    · exact hshift s
    · rfl
  · simp only [Span.spread, Span.insertion]
    split
    · next hlt => exact if_pos hlt
    · next hge => exact if_neg hge

/-- A change of places, and a change of reports with it. What the one context makes of a problem becomes what the other
context makes of the problem in its new place. -/
structure Translation {γ δ γ' δ' : Type} [Reporting γ δ] [Reporting γ' δ'] (context : γ) (context' : γ') where
  place : Span → Span
  word : δ → δ'
  word_report : ∀ id span detail, word (Reporting.report context ⟨id, span, detail⟩) =
    Reporting.report context' ⟨id, place span, detail⟩

def Translation.relocation (g : Span → Span) : Translation () () := ⟨g, Problem.relocate g, fun _ _ _ => rfl⟩

variable {γ δ γ' δ' : Type} [Reporting γ δ] [Reporting γ' δ'] {context : γ} {context' : γ'} {g : Span → Span}
  {m : Translation context context'}

/-- Only reports change: what the one context makes of a problem becomes what the other context makes of it. -/
def Translation.rewording (word : δ → δ')
    (h : ∀ p, word (Reporting.report context p) = Reporting.report context' p) : Translation context context' :=
  ⟨id, word, fun _ _ _ => h _⟩

/-! ### Scanning -/

/-- The tokens of a text further on. -/
theorem scanFrom_add (position width : Nat) (chars : List Char) :
    scanFrom (position + width) chars = (scanFrom position chars).map (Token.relocate (Span.shift width)) := by
  induction chars using runInduction generalizing position with
  | nil => rw [scanFrom_nil, scanFrom_nil, List.map_nil]
  | run c cs rest hrun ih =>
    have hnext : position + width + (c :: cs).length = position + (c :: cs).length + width := Nat.add_right_comm _ _ _
    rw [scanFrom_longest hrun, scanFrom_longest hrun, List.map_append, List.map_map, hnext, ih]
    rfl

theorem scanFrom_eq_shift (position : Nat) (source : String) :
    scanFrom position source.toList = (scan source).map (Token.relocate (Span.shift position)) := by
  rw [scan_eq_scanFrom, ← scanFrom_add, Nat.zero_add]

/-! ### Streams -/

namespace TokenStream

/-- The stream with all tokens in other places and all reports in another context. -/
def translate (m : Translation context context') (s : TokenStream context) : TokenStream context' :=
  ⟨s.consumed.map (Token.relocate m.place), s.remaining.map (Token.relocate m.place), s.problems.map m.word⟩

section

variable (m)

theorem peek?_translate (s : TokenStream context) : (s.translate m).peek? = s.peek?.map (Token.relocate m.place) :=
  List.head?_map

theorem peekLexeme?_translate (s : TokenStream context) : (s.translate m).peekLexeme? = s.peekLexeme? := by
  rw [peekLexeme?, peek?_translate, Option.map_map]
  rfl

theorem isAtEnd_translate (s : TokenStream context) : (s.translate m).isAtEnd = s.isAtEnd := List.isEmpty_map

theorem advance_translate (s : TokenStream context) : (s.translate m).advance = s.advance.translate m := by
  obtain ⟨consumed, remaining, problems⟩ := s
  cases remaining <;> rfl

/-- **A report is the same one in other words.** -/
theorem report_translate (s : TokenStream context) (id : MessageId) (span : Span) (detail : Detail) :
    (s.translate m).report id (m.place span) detail = (s.report id span detail).translate m := by
  simp only [report, translate, List.map_append, List.map_cons, List.map_nil, m.word_report]

theorem skip_translate (s : TokenStream context) (l : Lexeme) :
    (s.translate m).skip l = ((s.skip l).1, (s.skip l).2.translate m) := by
  rw [skip, skip, peekLexeme?_translate]
  split
  · rw [advance_translate]
  · rfl

end

theorem missingSpan_translate (hm : Displaces m.place) (s : TokenStream context) :
    (s.translate m).missingSpan = m.place s.missingSpan := by
  obtain ⟨consumed, remaining, problems⟩ := s
  cases consumed with
  | nil => exact hm.insertion_zero.symm
  | cons t consumed => exact (hm.insertion_stop t.span).symm

theorem reportMissing_translate (hm : Displaces m.place) (s : TokenStream context) (id : MessageId) :
    (s.translate m).reportMissing id = (s.reportMissing id).translate m := by
  rw [reportMissing, missingSpan_translate hm, report_translate]
  rfl

theorem expect_translate {α : Type} (hm : Displaces m.place) (s : TokenStream context) (id : MessageId)
    (value? : Lexeme → Option α) :
    (s.translate m).expect id value? = ((s.expect id value?).1, (s.expect id value?).2.translate m) := by
  rw [expect, expect, peekLexeme?_translate]
  split
  · rw [advance_translate]
  · rw [reportMissing_translate hm]

end TokenStream

/-! ### The rules -/

namespace Grammar

open TokenStream

variable {stop : Stop}

theorem isOne_relocate (hg : Displaces g) (t : Token) : isOne (t.relocate g) = isOne t := by
  rw [isOne, isOne, Token.relocate, hg.length]

theorem startsTerm_relocate (hg : Displaces g) (t : Token) : startsTerm (t.relocate g) = startsTerm t := by
  unfold startsTerm
  rw [isOne_relocate hg]
  rfl

theorem surface_relocate (hg : Displaces g) (t : Token) : (t.relocate g).surface = t.surface := by
  unfold Token.surface
  simp only [Token.relocate, hg.length]

theorem signedInteger_translate (hm : Displaces m.place) (sign : Lexeme) (value? : Lexeme → Option Nat)
    (s : TokenStream context) : signedInteger sign value? (s.translate m) =
      ((signedInteger sign value? s).1, (signedInteger sign value? s).2.translate m) := by
  simp only [signedInteger, skip_translate, expect_translate hm]

theorem exponent_translate (hm : Displaces m.place) (name : Span) (s : TokenStream context) :
    exponent (m.place name) (s.translate m) = ((exponent name s).1, (exponent name s).2.translate m) := by
  unfold exponent
  rw [peekLexeme?_translate]
  split
  · rw [advance_translate, integer_eq, integer_eq, signedInteger_translate hm]
  · rw [superscriptInteger_eq, superscriptInteger_eq, signedInteger_translate hm]
  · rw [superscriptInteger_eq, superscriptInteger_eq, signedInteger_translate hm]
  · rw [← hm.insertion_stop, report_translate, integer_eq, integer_eq, signedInteger_translate hm]
  · rfl

theorem term_translate (hm : Displaces m.place) (stop : Stop) (s : TokenStream context) :
    term stop (s.translate m) = ((term stop s).1.map (Term.relocate m.place), (term stop s).2.translate m) := by
  unfold term
  rw [peek?_translate]
  cases s.peek? with
  | none => exact Prod.ext rfl (reportMissing_translate hm s .unitNameRequired)
  | some t =>
    have hlexeme : (t.relocate m.place).lexeme = t.lexeme := rfl
    simp only [Option.map_some, hlexeme, isOne_relocate hm, surface_relocate hm]
    split
    · exact Prod.ext rfl (reportMissing_translate hm s .unitNameRequired)
    · split
      · rw [advance_translate]
        refine Prod.ext ?_ ?_
        · show [Term.mk _ (exponent (m.place t.span) _).1 _] = _
          rw [exponent_translate hm]
          rfl
        · show (exponent (m.place t.span) _).2 = _
          rw [exponent_translate hm]
      · split
        · exact Prod.ext rfl (advance_translate m s)
        · rw [advance_translate]
          exact Prod.ext rfl (report_translate m s.advance .unexpectedToken t.span (.token t.surface))

/-- The induction is on the stream with the tokens in their first places. -/
theorem tailTerms_translate (hm : Displaces m.place) (stop : Stop) (s : TokenStream context) :
    tailTerms stop (s.translate m) =
      ((tailTerms stop s).1.map (Term.relocate m.place), (tailTerms stop s).2.translate m) := by
  have hpeek : ∀ {s : TokenStream context} {t : Token}, s.peek? = some t →
      (s.translate m).peek? = some (t.relocate m.place) := by
    intro s t hp
    rw [peek?_translate, hp]
    rfl
  fun_induction tailTerms stop s with
  | case1 s hp =>
    have hend : (s.translate m).peek? = none := by rw [peek?_translate, hp, Option.map_none]
    rw [tailTerms]
    split
    · rfl
    · next t ht => rw [hend] at ht; cases ht
  | case2 s t hp hstop => exact tailTerms_of_not_starts (hpeek hp) (.inl hstop)
  | case3 s t hp hstop hl first rest ih =>
    rw [tailTerms_of_star (hpeek hp) hl, advance_translate, term_translate hm, ih, List.map_append]
  | case4 s t hp hstop hl hstarts first rest ih =>
    rw [tailTerms_of_startsTerm (hpeek hp) ((startsTerm_relocate hm t).trans hstarts), term_translate hm, ih,
      List.map_append]
  | case5 s t hp hstop hl hstarts =>
    refine tailTerms_of_not_starts (hpeek hp) (.inr ⟨hl, ?_⟩)
    rw [startsTerm_relocate hm]
    exact Bool.eq_false_iff.mpr hstarts

theorem terms_translate (hm : Displaces m.place) (stop : Stop) (s : TokenStream context) :
    terms stop (s.translate m) = ((terms stop s).1.map (Term.relocate m.place), (terms stop s).2.translate m) := by
  simp only [terms, term_translate hm, tailTerms_translate hm, List.map_append]

theorem numerator_translate (hm : Displaces m.place) (s : TokenStream context) :
    numerator (s.translate m) = ((numerator s).1.map (Term.relocate m.place), (numerator s).2.translate m) := by
  unfold numerator
  rw [peekLexeme?_translate]
  split
  · rfl
  · rfl
  · exact terms_translate hm .slash s

theorem denominator_translate (hm : Displaces m.place) (s : TokenStream context) :
    denominator (s.translate m) = ((denominator s).1.map (Term.relocate m.place), (denominator s).2.translate m) := by
  rw [denominator, denominator, isAtEnd_translate]
  split
  · rfl
  · exact terms_translate hm .never s

theorem map_relocate_reciprocal (g : Span → Span) (e : Expression) :
    e.reciprocal.map (Term.relocate g) = Expression.reciprocal (e.map (Term.relocate g)) := by
  rw [Expression.reciprocal, Expression.reciprocal, List.map_map, List.map_map]
  rfl

theorem fraction_translate (hm : Displaces m.place) (s : TokenStream context) :
    fraction (s.translate m) = ((fraction s).1.map (Term.relocate m.place), (fraction s).2.translate m) := by
  simp only [fraction, numerator_translate hm, skip_translate, denominator_translate hm]
  split
  · rw [List.map_append, map_relocate_reciprocal]
  · rfl

/-- What is left over is reported in the one context exactly if it is in the other one: it depends on whether something
was reported before. -/
theorem units_translate (hm : Displaces m.place) (s : TokenStream context) :
    units (s.translate m) = ((units s).1.map (Term.relocate m.place), (units s).2.translate m) := by
  have hproblems : ((fraction s).2.translate m).problems.isEmpty = (fraction s).2.problems.isEmpty := List.isEmpty_map
  simp only [units, fraction_translate hm, isAtEnd_translate, hproblems]
  split
  · rfl
  · rw [reportMissing_translate hm]

end Grammar

namespace Parse

/-- **Tokens are parsed alike in all places and in all contexts.** The terms move with the tokens, and so do the problems,
in the words of the context. -/
theorem ofTokensIn_translate (hm : Displaces m.place) (tokens : List Token) :
    ofTokensIn context' (tokens.map (Token.relocate m.place)) =
      ⟨(ofTokensIn context tokens).expression.map (Term.relocate m.place),
        (ofTokensIn context tokens).problems.map m.word⟩ := by
  have hread := Grammar.units_translate hm (TokenStream.ofTokens context tokens)
  exact congrArg (fun read => Parse.mk read.1 read.2.problems) hread

/-- **A source is parsed alike in all contexts**, up to what is made of its problems. -/
theorem ofSourceIn_reword (word : δ → δ') (h : ∀ p, word (Reporting.report context p) = Reporting.report context' p)
    (source : String) :
    ofSourceIn context' source =
      ⟨(ofSourceIn context source).expression, (ofSourceIn context source).problems.map word⟩ := by
  have hplace : Displaces (Translation.rewording word h).place := ⟨fun _ => rfl, fun _ => rfl, rfl⟩
  have hread := ofTokensIn_translate hplace (scan source)
  have htokens : (scan source).map (Token.relocate id) = scan source := List.map_id _
  have hterms : ∀ e : Expression, e.map (Term.relocate id) = e := fun e => List.map_id e
  rwa [Translation.rewording, htokens, hterms] at hread

theorem ofTokens_relocate (hg : Displaces g) (tokens : List Token) :
    ofTokens (tokens.map (Token.relocate g)) =
      ⟨(ofTokens tokens).expression.map (Term.relocate g), (ofTokens tokens).problems.map (Problem.relocate g)⟩ :=
  ofTokensIn_translate (m := .relocation g) hg tokens

end Parse
end Dimensional
