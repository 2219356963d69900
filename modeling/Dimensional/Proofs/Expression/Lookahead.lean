import Dimensional.Proofs.Expression.Power
import Dimensional.Proofs.Expression.Progress

/-!
# What is left over

The rules look at the next token at most before they read it. So a rule that leaves more than what is put behind a stream
reads the same without it (`OneAhead`); this is closed under running rules one after the other and under looking at the
next token.

The main statement is `longest_clean_prefix`: where tokens are reported as left over, what is read in front of them is
the longest part of the tokens, from the first one on, that is parsed without problems.
-/

namespace Dimensional

namespace TokenStream

variable {s : TokenStream ()} {more : List Token}

def extend (s : TokenStream ()) (more : List Token) : TokenStream () :=
  { s with remaining := s.remaining ++ more }

theorem length_remaining_extend (s : TokenStream ()) (more : List Token) :
    (s.extend more).remaining.length = s.remaining.length + more.length := List.length_append

theorem peek?_extend (h : s.remaining ≠ []) : (s.extend more).peek? = s.peek? :=
  List.head?_append_of_ne_nil _ h

theorem advance_extend (h : s.remaining ≠ []) : (s.extend more).advance = s.advance.extend more := by
  obtain ⟨t, ts, hts⟩ := List.exists_cons_of_ne_nil h
  simp [advance, extend, hts]

end TokenStream

namespace Grammar

open TokenStream

/-! ### Rules that look one token ahead -/

/-- A rule never looks further than at the next token, and puts none back. -/
structure OneAhead {α : Type} (rule : TokenStream () → α × TokenStream ()) : Prop where
  shortens : ∀ s, (rule s).2.remaining.length ≤ s.remaining.length
  reads : ∀ s more, more.length < (rule (s.extend more)).2.remaining.length →
    rule (s.extend more) = ((rule s).1, (rule s).2.extend more)

variable {α β : Type} {rule : TokenStream () → α × TokenStream ()} {s : TokenStream ()} {more : List Token} {stop : Stop}

/-- What is left is more than what was put behind the stream, so something is left of the stream. -/
theorem remaining_ne_nil {n : Nat} (hle : n ≤ (s.extend more).remaining.length) (hlt : more.length < n) :
    s.remaining ≠ [] := by
  intro hnil
  rw [length_remaining_extend, hnil, List.length_nil] at hle
  omega

theorem oneAhead_stay (a : α) : OneAhead fun s => (a, s) :=
  ⟨fun _ => Nat.le_refl _, fun _ _ _ => rfl⟩

theorem oneAhead_report (a : α) (id : MessageId) (span : Span) (detail : Detail) :
    OneAhead fun s => (a, s.report id span detail) :=
  ⟨fun _ => Nat.le_refl _, fun _ _ _ => rfl⟩

theorem oneAhead_reportMissing (a : α) (id : MessageId) : OneAhead fun s => (a, s.reportMissing id) :=
  ⟨fun _ => Nat.le_refl _, fun _ _ _ => rfl⟩

theorem oneAhead_advance (a : α) : OneAhead fun s => (a, s.advance) := by
  refine ⟨length_remaining_advance_le, fun s more hmore => ?_⟩
  rw [advance_extend (remaining_ne_nil (length_remaining_advance_le _) hmore)]

/-- One rule after the other. -/
theorem OneAhead.bind {next : α → TokenStream () → β × TokenStream ()} (h : OneAhead rule)
    (hnext : ∀ a, OneAhead (next a)) : OneAhead fun s => next (rule s).1 (rule s).2 := by
  refine ⟨fun s => Nat.le_trans ((hnext _).shortens _) (h.shortens s), fun s more hmore => ?_⟩
  have hrule := h.reads s more (Nat.lt_of_lt_of_le hmore ((hnext _).shortens _))
  rw [hrule] at hmore ⊢
  exact (hnext _).reads _ _ hmore

theorem OneAhead.map (h : OneAhead rule) (f : α → β) : OneAhead fun s => (f (rule s).1, (rule s).2) :=
  h.bind fun a => oneAhead_stay (f a)

/-- A rule that is another one for each next token. -/
theorem oneAhead_of_peek
    (h : ∀ next, ∃ chosen, OneAhead chosen ∧ ∀ s : TokenStream (), s.peek? = next → rule s = chosen s) : OneAhead rule := by
  have hshortens : ∀ s : TokenStream (), (rule s).2.remaining.length ≤ s.remaining.length := by
    intro s
    obtain ⟨chosen, hchosen, heq⟩ := h s.peek?
    rw [heq s rfl]
    exact hchosen.shortens s
  refine ⟨hshortens, fun s more hmore => ?_⟩
  obtain ⟨chosen, hchosen, heq⟩ := h s.peek?
  have hpeek : (s.extend more).peek? = s.peek? := peek?_extend (remaining_ne_nil (hshortens _) hmore)
  rw [heq _ hpeek] at hmore ⊢
  rw [heq s rfl]
  exact hchosen.reads s more hmore

/-! ### The rules -/

theorem oneAhead_skip (l : Lexeme) : OneAhead fun s => s.skip l := by
  apply oneAhead_of_peek
  intro next
  by_cases h : next.map Token.lexeme = some l
  · refine ⟨_, oneAhead_advance true, fun s hp => skip_of_eq ?_⟩
    rwa [peekLexeme?, hp]
  · refine ⟨_, oneAhead_stay false, fun s hp => skip_of_ne ?_⟩
    rwa [peekLexeme?, hp]

theorem oneAhead_expect (id : MessageId) (value? : Lexeme → Option α) : OneAhead fun s => s.expect id value? := by
  apply oneAhead_of_peek
  intro next
  cases h : (next.map Token.lexeme).bind value? with
  | none =>
    refine ⟨_, oneAhead_reportMissing none id, fun s hp => ?_⟩
    simp only [expect, peekLexeme?, hp, h]
  | some value =>
    refine ⟨_, oneAhead_advance (some value), fun s hp => ?_⟩
    simp only [expect, peekLexeme?, hp, h]

theorem oneAhead_signedInteger (sign : Lexeme) (value? : Lexeme → Option Nat) : OneAhead (signedInteger sign value?) :=
  (oneAhead_skip sign).bind fun negative => (oneAhead_expect .numberRequired value?).map (signed negative)

theorem oneAhead_exponent (name : Span) : OneAhead (exponent name) := by
  have hinteger : OneAhead integer := oneAhead_signedInteger .minus natural?
  have hsuperscript : OneAhead superscriptInteger := oneAhead_signedInteger .superscriptMinus superscript?
  apply oneAhead_of_peek
  intro next
  cases hl : next.map Token.lexeme with
  | none =>
    refine ⟨_, oneAhead_stay 1, fun s hp => ?_⟩
    simp only [exponent, peekLexeme?, hp, hl]
  | some l =>
    cases l with
    | caret =>
      refine ⟨_, (oneAhead_advance ()).bind fun _ => hinteger, fun s hp => ?_⟩
      simp only [exponent, peekLexeme?, hp, hl]
    | minus =>
      refine ⟨_, (oneAhead_report () .exponentSymbolRequired (Span.insertion name.stop) .none).bind fun _ => hinteger,
        fun s hp => ?_⟩
      simp only [exponent, peekLexeme?, hp, hl]
    | superscriptMinus | superscript =>
      refine ⟨_, hsuperscript, fun s hp => ?_⟩
      simp only [exponent, peekLexeme?, hp, hl]
    | name | natural | star | slash =>
      refine ⟨_, oneAhead_stay 1, fun s hp => ?_⟩
      simp only [exponent, peekLexeme?, hp, hl]

theorem oneAhead_term (stop : Stop) : OneAhead (term stop) := by
  apply oneAhead_of_peek
  intro next
  cases next with
  | none =>
    refine ⟨_, oneAhead_reportMissing [] .unitNameRequired, fun s hp => ?_⟩
    simp only [term, hp]
  | some t =>
    cases hstop : stop.isAt t.lexeme with
    | true =>
      refine ⟨_, oneAhead_reportMissing [] .unitNameRequired, fun s hp => ?_⟩
      simp only [term, hp, hstop, if_true]
    | false =>
      cases hl : t.lexeme with
      | name n =>
        exact ⟨_, (oneAhead_advance ()).bind fun _ => (oneAhead_exponent t.span).map fun k => [⟨n, k, t.span⟩],
          fun s hp => term_of_name hp hl⟩
      | _ =>
        rw [hl] at hstop
        cases hone : isOne t with
        | true =>
          refine ⟨_, oneAhead_advance [], fun s hp => ?_⟩
          simp only [term, hp, hl, hstop, hone, Bool.false_eq_true, if_false, if_true]
        | false =>
          refine ⟨_, (oneAhead_advance ()).bind fun _ =>
            oneAhead_report [⟨"(" ++ t.surface ++ ")", 1, t.span⟩] .unexpectedToken t.span (.token t.surface),
            fun s hp => ?_⟩
          simp only [term, hp, hl, hstop, hone, Bool.false_eq_true, if_false]

/-- Where the list of terms ends. -/
theorem tailTerms_of_not_starts {γ δ : Type} [Reporting γ δ] {context : γ} {s : TokenStream context} {t : Token}
    (hp : s.peek? = some t)
    (ht : stop.isAt t.lexeme = true ∨ t.lexeme ≠ .star ∧ startsTerm t = false) : tailTerms stop s = ([], s) := by
  rw [tailTerms]
  split
  · rfl
  · next u hu =>
    obtain rfl : t = u := Option.some.inj (hp ▸ hu)
    rcases ht with ht | ⟨hstar, hstarts⟩
    · rw [if_pos ht]
    · simp [hstar, hstarts]

theorem length_remaining_tailTerms_le (stop : Stop) (s : TokenStream ()) :
    (tailTerms stop s).2.remaining.length ≤ s.remaining.length := by
  fun_induction tailTerms stop s with
  | case1 | case2 | case5 => exact Nat.le_refl _
  | case3 s t hp hstop hl first more ih =>
    exact Nat.le_trans ih (Nat.le_trans (length_remaining_term_le stop _) (length_remaining_advance_le s))
  | case4 s t hp hstop hl hstarts first more ih => exact Nat.le_trans ih (length_remaining_term_le stop s)

/-- A list of terms, from what is known about the terms behind the first one. -/
theorem terms_extend (hmore : more.length < (terms stop (s.extend more)).2.remaining.length)
    (htail : more.length < (tailTerms stop ((term stop s).2.extend more)).2.remaining.length →
      tailTerms stop ((term stop s).2.extend more) =
        ((tailTerms stop (term stop s).2).1, (tailTerms stop (term stop s).2).2.extend more)) :
    terms stop (s.extend more) = ((terms stop s).1, (terms stop s).2.extend more) := by
  have hterm : term stop (s.extend more) = ((term stop s).1, (term stop s).2.extend more) :=
    (oneAhead_term stop).reads s more (Nat.lt_of_lt_of_le hmore (length_remaining_tailTerms_le stop _))
  simp only [terms, hterm] at hmore ⊢
  rw [htail hmore]

/-- The induction is on the stream without what is put behind it. -/
theorem oneAhead_tailTerms (stop : Stop) : OneAhead (tailTerms stop) := by
  refine ⟨length_remaining_tailTerms_le stop, fun s more hmore => ?_⟩
  have hne : ∀ {s : TokenStream ()}, more.length < (tailTerms stop (s.extend more)).2.remaining.length →
      s.remaining ≠ [] := remaining_ne_nil (length_remaining_tailTerms_le stop _)
  fun_induction tailTerms stop s with
  | case1 s hp => exact absurd (List.head?_eq_none_iff.mp hp) (hne hmore)
  | case2 s t hp hstop => exact tailTerms_of_not_starts ((peek?_extend (hne hmore)).trans hp) (.inl hstop)
  | case3 s t hp hstop hl first rest ih =>
    have hs := hne hmore
    have hterms : tailTerms stop (s.extend more) = terms stop (s.advance.extend more) := by
      rw [tailTerms_of_star ((peek?_extend hs).trans hp) hl, advance_extend hs]
      rfl
    rw [hterms] at hmore ⊢
    exact terms_extend hmore ih
  | case4 s t hp hstop hl hstarts first rest ih =>
    have hterms : tailTerms stop (s.extend more) = terms stop (s.extend more) :=
      tailTerms_of_startsTerm ((peek?_extend (hne hmore)).trans hp) hstarts
    rw [hterms] at hmore ⊢
    exact terms_extend hmore ih
  | case5 s t hp hstop hl hstarts =>
    refine tailTerms_of_not_starts ((peek?_extend (hne hmore)).trans hp) (.inr ⟨hl, ?_⟩)
    exact Bool.eq_false_iff.mpr hstarts

theorem oneAhead_terms (stop : Stop) : OneAhead (terms stop) :=
  (oneAhead_term stop).bind fun e => (oneAhead_tailTerms stop).map fun f => e ++ f

/-! ### Whole expressions -/

theorem oneAhead_numerator : OneAhead numerator := by
  apply oneAhead_of_peek
  intro next
  cases hl : next.map Token.lexeme with
  | none =>
    refine ⟨_, oneAhead_stay [], fun s hp => ?_⟩
    simp only [numerator, peekLexeme?, hp, hl]
  | some l =>
    cases l with
    | slash =>
      refine ⟨_, oneAhead_stay [], fun s hp => ?_⟩
      simp only [numerator, peekLexeme?, hp, hl]
    | _ =>
      refine ⟨_, oneAhead_terms .slash, fun s hp => ?_⟩
      simp only [numerator, peekLexeme?, hp, hl]

theorem oneAhead_denominator : OneAhead denominator := by
  apply oneAhead_of_peek
  intro next
  cases next with
  | none =>
    refine ⟨_, oneAhead_stay [], fun s hp => ?_⟩
    have hend : s.isAtEnd = true := List.isEmpty_iff.mpr (List.head?_eq_none_iff.mp hp)
    simp only [denominator, hend, if_true]
  | some t =>
    refine ⟨_, oneAhead_terms .never, fun s hp => ?_⟩
    have hend : s.isAtEnd = false := by
      rw [isAtEnd, remaining_of_peek? hp]
      rfl
    simp only [denominator, hend, Bool.false_eq_true, if_false]

theorem oneAhead_fraction : OneAhead fraction := by
  have hbehind : ∀ above : Expression, OneAhead fun s =>
      if s.peekLexeme? = some .slash then (above ++ Expression.reciprocal (denominator s.advance).1,
        (denominator s.advance).2)
      else (above, s) := by
    intro above
    apply oneAhead_of_peek
    intro next
    by_cases h : next.map Token.lexeme = some .slash
    · refine ⟨_, (oneAhead_advance ()).bind fun _ => oneAhead_denominator.map fun below =>
        above ++ Expression.reciprocal below, fun s hp => ?_⟩
      rw [peekLexeme?, hp, if_pos h]
    · refine ⟨_, oneAhead_stay above, fun s hp => ?_⟩
      rw [peekLexeme?, hp, if_neg h]
  have heq : fraction = fun s : TokenStream () =>
      if (numerator s).2.peekLexeme? = some .slash then
        ((numerator s).1 ++ Expression.reciprocal (denominator (numerator s).2.advance).1,
          (denominator (numerator s).2.advance).2)
      else ((numerator s).1, (numerator s).2) := by
    funext s
    rcases fraction_cases s with ⟨heq, hp⟩ | ⟨heq, hp⟩
    · rw [heq, if_neg hp]
    · rw [heq, if_pos hp]
  rw [heq]
  exact oneAhead_numerator.bind hbehind

/-! ### Leftover tokens -/

/-- The rules below a whole expression report no leftover tokens. -/
theorem Reading.id_ne {r r' : Reader} {e : List Factor} (h : Reading r e r')
    (hr : ∀ p ∈ r.stream.problems, p.id ≠ .endOfSourceRequired) :
    ∀ p ∈ r'.stream.problems, p.id ≠ .endOfSourceRequired := by
  have happend : ∀ {ps : List Problem} {q : Problem}, (∀ p ∈ ps, p.id ≠ .endOfSourceRequired) →
      q.id ≠ .endOfSourceRequired → ∀ p ∈ ps ++ [q], p.id ≠ .endOfSourceRequired := by
    intro ps q hps hq p hp
    rcases List.mem_append.mp hp with hp | hp
    · exact hps p hp
    · rwa [List.mem_singleton.mp hp]
  induction h with
  | done => exact hr
  | step h _ ih =>
    apply ih
    cases h with
    | pass | name | slash => rwa [problems_advance]
    | unexpected =>
      apply happend _ (by simp)
      rwa [problems_advance]
    | missing hid hend => exact happend hr hend

end Grammar

namespace Parse

open Grammar

variable {tokens : List Token}

theorem fraction_of_leftover (h : ∃ p ∈ (ofTokens tokens).problems, p.id = .endOfSourceRequired) :
    units (.ofTokens () tokens) = ((fraction (.ofTokens () tokens)).1,
        (fraction (.ofTokens () tokens)).2.reportMissing .endOfSourceRequired) ∧
      (fraction (.ofTokens () tokens)).2.remaining ≠ [] ∧ (fraction (.ofTokens () tokens)).2.problems = [] := by
  rcases units_cases (.ofTokens () tokens) with ⟨heq, -⟩ | hleftover
  · obtain ⟨p, hp, hid⟩ := h
    change p ∈ (units (.ofTokens () tokens)).2.problems at hp
    rw [heq] at hp
    obtain ⟨stop, hread⟩ := reading_fraction (s := .ofTokens () tokens) false rfl
    exact absurd hid (hread.id_ne (fun p hp => absurd hp List.not_mem_nil) p hp)
  · exact hleftover

/-- A longer part of the tokens is not parsed without problems. -/
theorem problems_take_ne_nil {j : Nat}
    (hj : tokens.length - j < (fraction (.ofTokens () tokens)).2.remaining.length) :
    (ofTokens (tokens.take j)).problems ≠ [] := by
  intro hclean
  have hextend : TokenStream.ofTokens () tokens = (TokenStream.ofTokens () (tokens.take j)).extend (tokens.drop j) := by
    rw [TokenStream.ofTokens, TokenStream.extend]
    exact congrArg (TokenStream.mk [] · []) (List.take_append_drop j tokens).symm
  rw [hextend, ← List.length_drop] at hj
  have hread := oneAhead_fraction.reads _ _ hj
  rw [hread, TokenStream.length_remaining_extend] at hj
  -- the part ends where its fraction does, so nothing is left of it
  change (units (.ofTokens () (tokens.take j))).2.problems = [] at hclean
  rcases units_cases (.ofTokens () (tokens.take j)) with ⟨heq, hend⟩ | ⟨heq, -, -⟩
  · rw [heq] at hclean
    rw [hend.resolve_right (fun hne => hne hclean), List.length_nil] at hj
    omega
  · rw [heq] at hclean
    exact absurd hclean (List.append_ne_nil_of_right_ne_nil _ (List.cons_ne_nil _ _))

/-- A fraction that leaves tokens over without a report has read some, and they are derivable. -/
theorem exists_read {s : TokenStream ()} (hs : s.consumed = []) (hleft : (fraction s).2.remaining ≠ [])
    (hclean : (fraction s).2.problems = []) :
    ∃ front t, s.remaining = front ++ [t] ++ (fraction s).2.remaining ∧
      (fraction s).2.missingSpan = Span.insertion t.span.stop ∧
      IsUnits (front ++ [t]) ((fraction s).1.map Factor.ofTerm) := by
  obtain ⟨read, hread, hunits⟩ := fraction_sound ⟨rfl, hclean⟩
  obtain ⟨t, ts, hts⟩ := List.exists_cons_of_ne_nil (consumed_fraction_ne_nil hleft)
  have hrun : (fraction s).2.tokens = s.tokens := (progress_fraction (b := false) hread.problems).tokens_eq
  rw [TokenStream.tokens, TokenStream.tokens, hs, hts, List.reverse_cons, List.reverse_nil, List.nil_append,
    hread.remaining] at hrun
  obtain rfl := List.append_cancel_right hrun
  refine ⟨ts.reverse, t, hread.remaining, ?_, hunits⟩
  rw [TokenStream.missingSpan, hts]
  rfl

/-- **What is read in front of leftover tokens is the longest clean part of the tokens**, from the first one on. It gives
the same terms, and that tokens are left over behind it is the only problem. -/
theorem longest_clean_prefix (h : ∃ p ∈ (ofTokens tokens).problems, p.id = .endOfSourceRequired) :
    ∃ k t, 1 ≤ k ∧ k < tokens.length ∧ tokens[k - 1]? = some t ∧
      (ofTokens tokens).problems = [⟨.endOfSourceRequired, Span.insertion t.span.stop, .none⟩] ∧
      ofTokens (tokens.take k) = ⟨(ofTokens tokens).expression, []⟩ ∧
      ∀ j, k < j → (ofTokens (tokens.take j)).problems ≠ [] := by
  obtain ⟨heq, hleft, hclean⟩ := fraction_of_leftover h
  obtain ⟨front, t, htokens, hspan, hunits⟩ := exists_read rfl hleft hclean
  change tokens = _ at htokens
  have hlength := congrArg List.length htokens
  rw [List.length_append, List.length_append, List.length_singleton] at hlength
  have hpos := List.length_pos_iff.mpr hleft
  have htake : tokens.take (front.length + 1) = front ++ [t] := by
    rw [htokens]
    exact List.take_left' List.length_append
  have hexpression : (ofTokens tokens).expression = (fraction (.ofTokens () tokens)).1 :=
    congrArg (fun parsed => parsed.1) heq
  refine ⟨front.length + 1, t, by omega, by omega, ?_, ?_, ?_, fun j hj => problems_take_ne_nil (by omega)⟩
  · rw [htokens]
    simp
  · show (units (.ofTokens () tokens)).2.problems = _
    rw [heq, TokenStream.reportMissing, TokenStream.report, hclean, hspan]
    rfl
  · rw [htake, ofTokens_of_isUnits hunits, hexpression, List.map_map]
    exact congrArg (Parse.mk · []) (List.map_id'' (fun t => Factor.term_ofTerm t) _)

/-- A second slash ends the expression in front of it. -/
theorem longest_clean_prefix_slashes :
    (ofSource "kg/s/A").problems = [⟨.endOfSourceRequired, ⟨4, 4⟩, .none⟩] ∧
    ∃ k t, 1 ≤ k ∧ k < (scan "kg/s/A").length ∧ (scan "kg/s/A")[k - 1]? = some t ∧
      (ofSource "kg/s/A").problems = [⟨.endOfSourceRequired, Span.insertion t.span.stop, .none⟩] ∧
      ofTokens ((scan "kg/s/A").take k) = ⟨(ofSource "kg/s/A").expression, []⟩ ∧
      ∀ j, k < j → (ofTokens ((scan "kg/s/A").take j)).problems ≠ [] := by
  have hproblems : (ofSource "kg/s/A").problems = [⟨.endOfSourceRequired, ⟨4, 4⟩, .none⟩] := by decide +kernel
  have hreported : ∃ p ∈ (ofSource "kg/s/A").problems, p.id = .endOfSourceRequired := by
    rw [hproblems]
    exact ⟨_, List.mem_singleton_self _, rfl⟩
  exact ⟨hproblems, longest_clean_prefix hreported⟩

end Parse
end Dimensional
