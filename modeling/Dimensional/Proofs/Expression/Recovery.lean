import Dimensional.Proofs.Expression.Places

/-!
# What is recovered of a source

However malformed a source is, its terms are those of the tokens that are read: one for each name, with the exponent that
is written behind it, and one for each token that is reported as unexpected. The first slash is the one of the fraction;
the exponents behind it are negated (`Recovers`).

The main statement is `recovered`: these are all terms, each at the place of its token, and tokens are left over only
where something is reported.
-/

namespace Dimensional

def unexpectedProblems (ps : List Problem) : List Problem :=
  ps.filter fun p => p.id = .unexpectedToken

namespace Grammar

/-- The factors that come of tokens which are read one after the other with `rest` behind them, and which of the tokens
are unexpected. Behind the slash there is no other one. -/
inductive Recovers (rest : List Token) : Stop → List Token → List Token → List Factor → Prop
  | nil {stop : Stop} : Recovers rest stop [] [] []
  | name {stop : Stop} {t : Token} {n : String} {ts us : List Token} {e : List Factor} (hl : t.lexeme = .name n)
      (h : Recovers rest stop ts us e) :
      Recovers rest stop (t :: ts) us
        (stop.side ⟨n, exponentBehind ((ts ++ rest).map Token.lexeme), t.span⟩ :: e)
  | pass {stop : Stop} {t : Token} {ts us : List Token} {e : List Factor} (hl : ∀ n, t.lexeme ≠ .name n)
      (hstop : stop.isAt t.lexeme = false) (h : Recovers rest stop ts us e) : Recovers rest stop (t :: ts) us e
  | unexpected {stop : Stop} {t : Token} {ts us : List Token} {e : List Factor} (hl : ∀ n, t.lexeme ≠ .name n)
      (hstop : stop.isAt t.lexeme = false) (h : Recovers rest stop ts us e) :
      Recovers rest stop (t :: ts) (t :: us) (stop.side t.bracketed :: e)
  | slash {t : Token} {ts us : List Token} {e : List Factor} (hl : t.lexeme = .slash)
      (h : Recovers rest .never ts us e) : Recovers rest .slash (t :: ts) us e

variable {rest ts us : List Token} {e : List Factor} {stop : Stop} {r r' : Reader}

/-! ### Runs -/

/-- What an action reads, in front of what is read behind it. -/
theorem Action.recovers (h : Action r e r') {f : List Factor} (hread : r'.stream.remaining = ts ++ rest)
    (hr : Recovers rest r'.side ts us f) :
    ∃ ts' us', r.stream.remaining = ts' ++ ts ++ rest ∧ r'.stream.consumed = ts'.reverse ++ r.stream.consumed ∧
      Recovers rest r.side (ts' ++ ts) (us' ++ us) (e ++ f) ∧
      unexpectedProblems r'.stream.problems =
        unexpectedProblems r.stream.problems ++ us'.map Token.unexpected := by
  cases h with
  | @pass stop b s t ht hstop hl =>
    refine ⟨[t], [], ?_, TokenStream.consumed_advance ht, .pass hl hstop hr, ?_⟩
    · rw [TokenStream.remaining_of_peek? ht, hread]
      rfl
    · rw [TokenStream.problems_advance]
      exact (List.append_nil _).symm
  | @name stop b s t n ht hl =>
    refine ⟨[t], [], ?_, TokenStream.consumed_advance ht, ?_, ?_⟩
    · rw [TokenStream.remaining_of_peek? ht, hread]
      rfl
    · rw [TokenStream.lexemes, hread]
      exact .name hl hr
    · rw [TokenStream.problems_advance]
      exact (List.append_nil _).symm
  | @unexpected stop b s t hb ht hstop hl =>
    change s.advance.remaining = ts ++ rest at hread
    refine ⟨[t], [t], ?_, TokenStream.consumed_advance ht, .unexpected hl hstop hr, ?_⟩
    · rw [TokenStream.remaining_of_peek? ht, hread]
      rfl
    · rw [TokenStream.report, TokenStream.problems_advance]
      exact List.filter_append _ _
  | @slash b s t ht hl =>
    refine ⟨[t], [], ?_, TokenStream.consumed_advance ht, .slash hl hr, ?_⟩
    · rw [TokenStream.remaining_of_peek? ht, hread]
      rfl
    · rw [TokenStream.problems_advance]
      exact (List.append_nil _).symm
  | @missing stop s id hid hend =>
    refine ⟨[], [], hread, rfl, hr, ?_⟩
    simp [TokenStream.reportMissing, TokenStream.report, unexpectedProblems, hid]

theorem Reading.recovers (h : Reading r e r') :
    ∃ ts us, r.stream.remaining = ts ++ r'.stream.remaining ∧
      r'.stream.consumed = ts.reverse ++ r.stream.consumed ∧ Recovers r'.stream.remaining r.side ts us e ∧
      unexpectedProblems r'.stream.problems = unexpectedProblems r.stream.problems ++ us.map Token.unexpected := by
  induction h with
  | done => exact ⟨[], [], rfl, rfl, .nil, (List.append_nil _).symm⟩
  | step h _ ih =>
    obtain ⟨ts, us, hread, hconsumed, hr, hproblems⟩ := ih
    obtain ⟨ts', us', hread', hconsumed', hr', hproblems'⟩ := h.recovers hread hr
    refine ⟨ts' ++ ts, us' ++ us, hread', ?_, hr', ?_⟩
    · rw [hconsumed, hconsumed', List.reverse_append, List.append_assoc]
    · rw [hproblems, hproblems', List.map_append, List.append_assoc]

/-! ### Places -/

theorem span_side (stop : Stop) (f : Factor) : (stop.side f).span = f.span := by
  cases stop <;> rfl

/-- Factors stand at tokens, in their order. -/
theorem Recovers.sublist (h : Recovers rest stop ts us e) :
    (e.map Factor.span).Sublist (ts.map Token.span) := by
  induction h with
  | nil => exact List.nil_sublist _
  | name hl _ ih =>
    rw [List.map_cons, List.map_cons, span_side]
    exact ih.cons_cons _
  | pass hl hstop _ ih => exact ih.cons _
  | unexpected hl hstop _ ih =>
    rw [List.map_cons, List.map_cons, span_side]
    exact ih.cons_cons _
  | slash hl _ ih => exact ih.cons _

end Grammar

namespace Parse

open Grammar

theorem recovers_units {s : TokenStream ()} (hs : s.problems = []) :
    ∃ ts us, s.remaining = ts ++ (units s).2.remaining ∧ (units s).2.consumed = ts.reverse ++ s.consumed ∧
      Recovers (units s).2.remaining .slash ts us ((units s).1.map Factor.ofTerm) ∧
      unexpectedProblems (units s).2.problems = us.map Token.unexpected := by
  obtain ⟨stop, hread⟩ := reading_fraction false hs
  obtain ⟨ts, us, hremaining, hconsumed, hr, hproblems⟩ := hread.recovers
  have hreported : unexpectedProblems (fraction s).2.problems = us.map Token.unexpected := by
    rw [hproblems, hs]
    rfl
  rcases units_cases s with ⟨heq, -⟩ | ⟨heq, -, hnone⟩
  · rw [heq]
    exact ⟨ts, us, hremaining, hconsumed, hr, hreported⟩
  · rw [heq]
    refine ⟨ts, us, hremaining, hconsumed, hr, ?_⟩
    rw [← hreported, TokenStream.reportMissing, TokenStream.report, hnone]
    rfl

theorem problems_ne_nil_of_remaining (tokens : List Token) (h : (units (.ofTokens () tokens)).2.remaining ≠ []) :
    (ofTokens tokens).problems ≠ [] := by
  show (units (.ofTokens () tokens)).2.problems ≠ []
  rcases units_cases (.ofTokens () tokens) with ⟨heq, hend⟩ | ⟨heq, -, -⟩
  · rw [heq] at h ⊢
    exact hend.resolve_left h
  · rw [heq]
    exact List.append_ne_nil_of_right_ne_nil _ (List.cons_ne_nil _ _)

/-- **Recovery neither loses nor invents terms.** The terms of a source are those of the names that are read and of the
tokens that are reported as unexpected, in the order of the source. Where tokens are left over, something is reported. -/
theorem recovered (source : String) :
    ∃ read rest unexpected, scan source = read ++ rest ∧
      (units (.ofTokens () (scan source))).2.consumed = read.reverse ∧
      (units (.ofTokens () (scan source))).2.remaining = rest ∧
      Recovers rest .slash read unexpected ((ofSource source).expression.map Factor.ofTerm) ∧
      unexpectedProblems (ofSource source).problems = unexpected.map Token.unexpected ∧
      (∀ t ∈ (ofSource source).expression, t.span.start < t.span.stop) ∧
      ((ofSource source).expression.Pairwise fun t u => t.span.stop ≤ u.span.start) ∧
      (rest ≠ [] → (ofSource source).problems ≠ []) := by
  obtain ⟨read, unexpected, hremaining, hconsumed, hr, hproblems⟩ :=
    recovers_units (s := .ofTokens () (scan source)) rfl
  have hspaced := spaced_scan source
  have hspans : ((ofSource source).expression.map Term.span).Sublist ((scan source).map Token.span) := by
    have hread := hr.sublist
    rw [List.map_map] at hread
    change scan source = _ at hremaining
    rw [hremaining, List.map_append]
    exact hread.trans (List.sublist_append_left _ _)
  refine ⟨read, _, unexpected, hremaining, ?_, rfl, hr, hproblems, ?_, ?_, problems_ne_nil_of_remaining _⟩
  · rw [hconsumed]
    exact List.append_nil _
  · intro t ht
    obtain ⟨u, hu, hspan⟩ := List.mem_map.mp (hspans.subset (List.mem_map_of_mem ht))
    rw [← hspan]
    exact hspaced.nonempty u hu
  · have hapart : ((scan source).map Token.span).Pairwise fun a b => a.stop ≤ b.start :=
      List.pairwise_map.mpr hspaced.apart
    exact List.pairwise_map.mp (hapart.sublist hspans)

/-- A number and a second slash that stand in for terms. -/
example : (ofSource "2 m // s^").expression.map (fun t => (t.name, t.exponent.val)) =
    [("(2)", 1), ("m", 1), ("(/)", -1), ("s", -1)] := by
  decide +kernel

end Parse
end Dimensional
