import Dimensional.Proofs.Expression.Reading

/-!
# Names and places in a parse

What the rules do, apart from exponents and from the two sides of a fraction: they pass over a token, read it as a name,
report it and take it as a term, or report that something is missing behind the last token. Between two reports a token
is consumed (`Step`, the flag tells whether a report is in order). `Progress` is a run of steps with the terms that come
of it. A fraction is read by such a run because its reading is one; a report of leftover tokens is one step more.

The main statements are `progress_units`, that parsing is such a run, and what comes of that: every problem is at a
token (`Parse.problems_at`), and the terms are those of the names and of the unexpected tokens (`Parse.accounted`).
-/

namespace Dimensional

/-- What a term says apart from its exponent. -/
def Term.mention (t : Term) : String × Span := (t.name, t.span)

def Factor.mention (f : Factor) : String × Span := (f.name, f.span)

/-- The problem of a token that cannot start a term. -/
def Token.unexpected (t : Token) : Problem := ⟨.unexpectedToken, t.span, .token t.surface⟩

/-- What is read where a token cannot start a term. -/
def Token.placeholder (t : Token) : String × Span := ("(" ++ t.surface ++ ")", t.span)

/-- A problem with one of the tokens: with itself, or with what is missing behind it. -/
inductive Problem.At (ts : List Token) : Problem → Prop
  | unexpected {t : Token} (ht : t ∈ ts) : At ts t.unexpected
  | missing {t : Token} {id : MessageId} (ht : t ∈ ts) (hid : id ≠ .unexpectedToken) :
      At ts ⟨id, Span.insertion t.span.stop, .none⟩

theorem Problem.At.mono {ts us : List Token} {p : Problem} (h : p.At ts) (hsub : ts ⊆ us) : p.At us := by
  cases h with
  | unexpected ht => exact .unexpected (hsub ht)
  | missing ht hid => exact .missing (hsub ht) hid

namespace Grammar

variable {s s' s'' : TokenStream ()} {t : Token} {ms ms' : List (String × Span)} {b b' c : Bool} {id : MessageId}
  {stop : Stop}

/-! ### Steps and runs -/

/-- One thing that the rules do. The flags say that a token has been consumed since the last report. -/
inductive Step : Bool → TokenStream () → List (String × Span) → Bool → TokenStream () → Prop
  | pass {b : Bool} {s : TokenStream ()} {t : Token} (ht : s.peek? = some t) (hl : ∀ n, t.lexeme ≠ .name n) :
      Step b s [] true s.advance
  | name {b : Bool} {s : TokenStream ()} {t : Token} {n : String} (ht : s.peek? = some t) (hl : t.lexeme = .name n) :
      Step b s [(n, t.span)] true s.advance
  | unexpected {b : Bool} {s : TokenStream ()} {t : Token} (hb : b = true ∨ s.problems = []) (ht : s.peek? = some t)
      (hl : ∀ n, t.lexeme ≠ .name n) :
      Step b s [t.placeholder] false (s.advance.report .unexpectedToken t.span (.token t.surface))
  | missing {b : Bool} {s : TokenStream ()} {id : MessageId} (hb : b = true ∨ s.problems = [] ∧ s.consumed ≠ [])
      (hid : id ≠ .unexpectedToken) : Step b s [] false (s.reportMissing id)

/-- Some steps one after the other. At the end the flag may be dropped. -/
inductive Progress : Bool → TokenStream () → List (String × Span) → Bool → TokenStream () → Prop
  | done {b b' : Bool} {s : TokenStream ()} (hb : b' = true → b = true) : Progress b s [] b' s
  | step {b c b' : Bool} {s s' s'' : TokenStream ()} {ms ms' : List (String × Span)} (h : Step b s ms c s')
      (hr : Progress c s' ms' b' s'') : Progress b s (ms ++ ms') b' s''

theorem Step.mono (h : Step b s ms b' s') (hb : b = true → c = true) : Step c s ms b' s' := by
  cases h with
  | pass ht hl => exact .pass ht hl
  | name ht hl => exact .name ht hl
  | unexpected hf ht hl => exact .unexpected (hf.imp_left hb) ht hl
  | missing hf hid => exact .missing (hf.imp_left hb) hid

theorem Progress.mono (h : Progress b s ms b' s') (hb : b = true → c = true) : Progress c s ms b' s' := by
  cases h with
  | done hd => exact .done fun h => hb (hd h)
  | step h hr => exact .step (h.mono hb) hr

theorem progress_stay (s : TokenStream ()) : Progress b s [] false s :=
  .done fun h => absurd h Bool.false_ne_true

theorem Progress.of_step (h : Step b s ms c s') : Progress b s ms false s' := by
  have hrun := Progress.step h (progress_stay s')
  rwa [List.append_nil] at hrun

theorem Progress.trans (h : Progress b s ms c s') (h' : Progress c s' ms' b' s'') :
    Progress b s (ms ++ ms') b' s'' := by
  induction h with
  | done hd => exact h'.mono hd
  | step h _ ih =>
    rw [List.append_assoc]
    exact .step h (ih h')

/-! ### What is consumed -/

theorem Step.consumed_suffix (h : Step b s ms b' s') : s.consumed <:+ s'.consumed := by
  cases h with
  | pass ht | name ht | unexpected _ ht =>
    show s.consumed <:+ s.advance.consumed
    rw [TokenStream.consumed_advance ht]
    exact List.suffix_cons _ _
  | missing => exact List.suffix_refl _

theorem Progress.consumed_suffix (h : Progress b s ms b' s') : s.consumed <:+ s'.consumed := by
  induction h with
  | done => exact List.suffix_refl _
  | step h _ ih => exact h.consumed_suffix.trans ih

theorem Progress.consumed_ne_nil (h : Progress b s ms b' s') (hs : s.consumed ≠ []) : s'.consumed ≠ [] := by
  intro hs'
  have hsuffix := h.consumed_suffix
  rw [hs', List.suffix_nil] at hsuffix
  exact hs hsuffix

/-! ### Readings are runs of steps -/

variable {r r' : Reader} {e : List Factor}

theorem mention_side (stop : Stop) (f : Factor) : (stop.side f).mention = f.mention := by
  cases stop <;> rfl

theorem Action.toStep (h : Action r e r') :
    Step r.fresh r.stream (e.map Factor.mention) r'.fresh r'.stream := by
  cases h with
  | pass ht hstop hl => exact .pass ht hl
  | name ht hl =>
    rw [List.map_singleton, mention_side]
    exact .name ht hl
  | unexpected hb ht hstop hl =>
    rw [List.map_singleton, mention_side]
    exact .unexpected hb ht hl
  | slash ht hl => exact .pass ht (by simp [hl])
  | missing hid hend => exact .missing (.inl rfl) hid

theorem Reading.toProgress (h : Reading r e r') :
    Progress r.fresh r.stream (e.map Factor.mention) r'.fresh r'.stream := by
  induction h with
  | done hb => exact .done hb
  | step h _ ih =>
    rw [List.map_append]
    exact .step h.toStep ih

theorem progress_fraction (hs : s.problems = []) :
    Progress b s ((fraction s).1.map Term.mention) false (fraction s).2 := by
  obtain ⟨stop, hread⟩ := reading_fraction b hs
  have hrun := hread.toProgress
  rwa [List.map_map] at hrun

/-! ### Leftover tokens -/

theorem consumed_term_ne_nil (ht : s.peek? = some t) (hstop : stop.isAt t.lexeme = false) :
    (term stop s).2.consumed ≠ [] := by
  have hadvance := TokenStream.consumed_advance_ne_nil ht
  simp only [term, ht, hstop, Bool.false_eq_true, if_false]
  split
  · have hexponent : Reading ⟨stop, true, s.advance⟩ [] ⟨stop, false, (exponent t.span s.advance).2⟩ :=
      reading_exponent (by rw [TokenStream.consumed_advance ht, List.head?_cons])
    exact hexponent.toProgress.consumed_ne_nil hadvance
  · split
    · exact hadvance
    · exact hadvance

/-- A numerator that stops in front of something else than a slash has begun. -/
theorem consumed_numerator_ne_nil (hleft : (numerator s).2.remaining ≠ [])
    (hp : (numerator s).2.peekLexeme? ≠ some .slash) : (numerator s).2.consumed ≠ [] := by
  unfold numerator at hleft hp ⊢
  cases ht : s.peek? with
  | none =>
    simp only [TokenStream.peekLexeme?, ht, Option.map_none] at hleft
    exact absurd (List.head?_eq_none_iff.mp ht) hleft
  | some t =>
    by_cases hl : t.lexeme = .slash
    · simp [TokenStream.peekLexeme?, ht, hl] at hp
    · simp only [TokenStream.peekLexeme?, ht, Option.map_some]
      exact (reading_tailTerms false .slash _).toProgress.consumed_ne_nil
        (consumed_term_ne_nil ht (not_isAt .slash hl))

theorem consumed_fraction_ne_nil (hleft : (fraction s).2.remaining ≠ []) : (fraction s).2.consumed ≠ [] := by
  rcases fraction_cases s with ⟨heq, hp⟩ | ⟨heq, hp⟩
  · rw [heq] at hleft ⊢
    exact consumed_numerator_ne_nil hleft hp
  · obtain ⟨t, ht, -⟩ := TokenStream.peek?_of_peekLexeme? hp
    rw [heq]
    exact (reading_denominator _).toProgress.consumed_ne_nil (TokenStream.consumed_advance_ne_nil ht)

/-- **Parsing is a run of steps.** -/
theorem progress_units (hs : s.problems = []) :
    Progress b s ((units s).1.map Term.mention) false (units s).2 := by
  have hread := progress_fraction (b := b) hs
  rcases units_cases s with ⟨heq, -⟩ | ⟨heq, hleft, hclean⟩
  · rw [heq]
    exact hread
  · have hreport : Step false (fraction s).2 [] false ((fraction s).2.reportMissing .endOfSourceRequired) :=
      .missing (.inr ⟨hclean, consumed_fraction_ne_nil hleft⟩) (by decide)
    have hrun := hread.trans (.of_step hreport)
    rw [heq]
    rwa [List.append_nil] at hrun

/-! ### What comes of a run -/

theorem tokens_advance (s : TokenStream ()) : s.advance.tokens = s.tokens := by
  unfold TokenStream.advance
  split
  · rfl
  · next t rest hr => simp [TokenStream.tokens, hr]

theorem Progress.tokens_eq (h : Progress b s ms b' s') : s'.tokens = s.tokens := by
  induction h with
  | done => rfl
  | step h _ ih =>
    rw [ih]
    cases h with
    | pass | name | unexpected => exact tokens_advance _
    | missing => rfl

/-- The problems are at consumed tokens, and where a report is in order, a token has been consumed. -/
structure Anchored (b : Bool) (s : TokenStream ()) : Prop where
  consumed : b = true → s.consumed ≠ []
  problems : ∀ p ∈ s.problems, p.At s.consumed

theorem Anchored.step (h : Anchored b s) (hstep : Step b s ms b' s') : Anchored b' s' := by
  have hold : ∀ p ∈ s.problems, p.At s'.consumed :=
    fun p hp => (h.problems p hp).mono hstep.consumed_suffix.subset
  cases hstep with
  | pass ht | name ht =>
    refine ⟨fun _ => TokenStream.consumed_advance_ne_nil ht, fun p hp => ?_⟩
    rw [TokenStream.problems_advance] at hp
    exact hold p hp
  | @unexpected t hb ht hl =>
    refine ⟨fun h => absurd h Bool.false_ne_true, fun p hp => ?_⟩
    rcases List.mem_append.mp hp with hp | hp
    · rw [TokenStream.problems_advance] at hp
      exact hold p hp
    · rw [List.mem_singleton.mp hp]
      refine .unexpected (t := t) ?_
      show t ∈ s.advance.consumed
      rw [TokenStream.consumed_advance ht]
      exact List.mem_cons_self
  | missing hb hid =>
    refine ⟨fun h => absurd h Bool.false_ne_true, fun p hp => ?_⟩
    rcases List.mem_append.mp hp with hp | hp
    · exact hold p hp
    · obtain ⟨t, rest, hrest⟩ := List.exists_cons_of_ne_nil (hb.elim h.consumed And.right)
      rw [List.mem_singleton.mp hp, TokenStream.missingSpan, hrest]
      exact .missing (by simp [TokenStream.reportMissing, TokenStream.report, hrest]) hid

theorem Anchored.progress (h : Anchored b s) (hrun : Progress b s ms b' s') : Anchored b' s' := by
  induction hrun with
  | done hb => exact ⟨fun h' => h.consumed (hb h'), h.problems⟩
  | step hstep _ ih => exact ih (h.step hstep)

/-- Terms are made of the names that are consumed and of the unexpected tokens, and of nothing else. -/
def Accounted (s : TokenStream ()) (ms : List (String × Span)) : Prop :=
  ∀ x, x ∈ ms ↔ (∃ t ∈ s.consumed, t.lexeme = .name x.1 ∧ t.span = x.2) ∨
    ∃ t : Token, t.unexpected ∈ s.problems ∧ t.placeholder = x

theorem placeholder_eq_of_unexpected_eq {u : Token} (h : t.unexpected = u.unexpected) :
    t.placeholder = u.placeholder := by
  simp only [Token.unexpected, Problem.mk.injEq, Detail.token.injEq, true_and] at h
  rw [Token.placeholder, Token.placeholder, h.1, h.2]

theorem Accounted.step (h : Accounted s ms) (hstep : Step b s ms' b' s') : Accounted s' (ms ++ ms') := by
  intro x
  have hold := h x
  cases hstep with
  | pass ht hl => simp [hold, TokenStream.consumed_advance ht, TokenStream.problems_advance, hl]
  | @name t n ht hl =>
    have hnew : (t.lexeme = .name x.1 ∧ t.span = x.2) ↔ x = (n, t.span) := by
      rw [hl, Lexeme.name.injEq, Prod.ext_iff, eq_comm, @eq_comm _ t.span]
    simp only [List.mem_append, hold, TokenStream.consumed_advance ht, TokenStream.problems_advance, List.mem_cons,
      exists_eq_or_imp, hnew, List.not_mem_nil, or_false]
    exact or_right_comm.trans (or_congr_left or_comm)
  | @unexpected t hb ht hl =>
    have hnames : (∃ u ∈ t :: s.consumed, u.lexeme = .name x.1 ∧ u.span = x.2) ↔
        ∃ u ∈ s.consumed, u.lexeme = .name x.1 ∧ u.span = x.2 := by
      simp [hl]
    have hnew : (∃ u : Token, u.unexpected ∈ s.problems ++ [t.unexpected] ∧ u.placeholder = x) ↔
        (∃ u : Token, u.unexpected ∈ s.problems ∧ u.placeholder = x) ∨ x = t.placeholder := by
      constructor
      · rintro ⟨u, hu, rfl⟩
        rcases List.mem_append.mp hu with hu | hu
        · exact .inl ⟨u, hu, rfl⟩
        · exact .inr (placeholder_eq_of_unexpected_eq (List.mem_singleton.mp hu))
      · rintro (⟨u, hu, rfl⟩ | rfl)
        · exact ⟨u, List.mem_append_left _ hu, rfl⟩
        · exact ⟨t, by simp, rfl⟩
    show x ∈ ms ++ [t.placeholder] ↔ (∃ u ∈ s.advance.consumed, _) ∨
      ∃ u : Token, u.unexpected ∈ s.advance.problems ++ [t.unexpected] ∧ _
    rw [TokenStream.consumed_advance ht, TokenStream.problems_advance, hnames, hnew, List.mem_append, List.mem_singleton,
      hold, or_assoc]
  | @missing id hb hid =>
    -- a report that something is missing is none about an unexpected token
    have hne : ∀ u : Token, u.unexpected ≠ ⟨id, s.missingSpan, .none⟩ := by
      intro u hu
      exact hid (congrArg Problem.id hu).symm
    simp [hold, TokenStream.reportMissing, TokenStream.report, hne]

theorem Accounted.progress (h : Accounted s ms) (hrun : Progress b s ms' b' s') : Accounted s' (ms ++ ms') := by
  induction hrun generalizing ms with
  | done => rwa [List.append_nil]
  | step hstep _ ih =>
    rw [← List.append_assoc]
    exact ih (h.step hstep)

end Grammar

namespace Parse

open Grammar

theorem progress_ofTokens (tokens : List Token) :
    Progress false (TokenStream.ofTokens () tokens) ((ofTokens tokens).expression.map Term.mention) false
      (units (TokenStream.ofTokens () tokens)).2 :=
  progress_units rfl

theorem consumed_subset (tokens : List Token) : (units (TokenStream.ofTokens () tokens)).2.consumed ⊆ tokens := by
  intro t ht
  have htokens := (progress_ofTokens tokens).tokens_eq
  change _ = tokens at htokens
  rw [← htokens]
  exact List.mem_append_left _ (List.mem_reverse.mpr ht)

/-- **Every problem is at a token.** -/
theorem problems_at (tokens : List Token) : ∀ p ∈ (ofTokens tokens).problems, p.At tokens := by
  intro p hp
  have hstart : Anchored false (TokenStream.ofTokens () tokens) :=
    ⟨fun h => absurd h Bool.false_ne_true, fun p hp => absurd hp List.not_mem_nil⟩
  exact ((hstart.progress (progress_ofTokens tokens)).problems p hp).mono (consumed_subset tokens)

/-- **Every term is made of a name or of an unexpected token**, and these give terms. -/
theorem accounted (tokens : List Token) :
    Accounted (units (TokenStream.ofTokens () tokens)).2 ((ofTokens tokens).expression.map Term.mention) := by
  have hstart : Accounted (TokenStream.ofTokens () tokens) [] := by
    intro x
    simp [TokenStream.ofTokens]
  exact hstart.progress (progress_ofTokens tokens)

/-- Where no problem is found the terms are the names. -/
theorem exists_name_of_accepted {tokens : List Token} (h : (ofTokens tokens).problems = []) :
    ∀ u ∈ (ofTokens tokens).expression, ∃ t ∈ tokens, t.lexeme = .name u.name ∧ t.span = u.span := by
  intro u hu
  rcases (accounted tokens u.mention).mp (List.mem_map_of_mem hu) with ⟨t, ht, hname⟩ | ⟨t, hp, -⟩
  · exact ⟨t, consumed_subset tokens ht, hname⟩
  · change t.unexpected ∈ (ofTokens tokens).problems at hp
    rw [h] at hp
    cases hp

end Parse
end Dimensional
