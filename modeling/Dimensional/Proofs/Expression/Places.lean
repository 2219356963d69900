import Dimensional.Proofs.Expression.Progress
import Dimensional.Proofs.Expression.Tokenization

/-!
# Where problems are

The problems of a source stand in the order of the source, each at a token, and none touches the next one: a report is
made behind the last token or on the next one, and between two reports a token is consumed. `Settled` is what every step
keeps.

The main statement is `problems_in_order`.
-/

namespace Dimensional

namespace Grammar

variable {s s' : TokenStream ()} {t : Token} {ms : List (String × Span)} {b b' : Bool}

/-- Tokens that are not empty and follow each other. -/
structure Spaced (ts : List Token) : Prop where
  nonempty : ∀ t ∈ ts, t.span.start < t.span.stop
  apart : ts.Pairwise fun t u => t.span.stop ≤ u.span.start

theorem spaced_scan (source : String) : Spaced (scan source) := by
  have h := tokenizes_scan source
  exact ⟨h.nonempty, h.ordered⟩

/-- Where something would be missing: the end of what is consumed. -/
def frontier (s : TokenStream ()) : Nat := s.missingSpan.stop

theorem frontier_advance (ht : s.peek? = some t) : frontier s.advance = t.span.stop := by
  simp [frontier, TokenStream.missingSpan, TokenStream.consumed_advance ht, Span.insertion]

theorem frontier_report {id : MessageId} {span : Span} {detail : Detail} :
    frontier (s.report id span detail) = frontier s := rfl

/-- The next token is behind what is consumed. -/
theorem frontier_le (h : Spaced s.tokens) (ht : s.peek? = some t) : frontier s ≤ t.span.start := by
  obtain ⟨rest, hrest⟩ := List.head?_eq_some_iff.mp ht
  cases hc : s.consumed with
  | nil => simp [frontier, TokenStream.missingSpan, hc, Span.insertion]
  | cons u us =>
    have hapart := h.apart
    rw [TokenStream.tokens, hc, hrest, List.pairwise_append] at hapart
    simpa [frontier, TokenStream.missingSpan, hc, Span.insertion] using
      hapart.2.2 u (by simp) t List.mem_cons_self

theorem frontier_lt_advance (h : Spaced s.tokens) (ht : s.peek? = some t) : frontier s < frontier s.advance := by
  have hmem : t ∈ s.tokens := List.mem_append_right _ (List.mem_of_head? ht)
  have hle := frontier_le h ht
  have hlt := h.nonempty t hmem
  rw [frontier_advance ht]
  omega

/-- The problems follow each other and end where the consumed tokens end, or before that if a report is in order. -/
structure Settled (b : Bool) (s : TokenStream ()) : Prop where
  tokens : Spaced s.tokens
  ordered : s.problems.Pairwise fun p q => p.span.stop < q.span.start
  behind : ∀ p ∈ s.problems, p.span.stop ≤ frontier s
  fresh : b = true → ∀ p ∈ s.problems, p.span.stop < frontier s

theorem Settled.advance (h : Settled b s) (ht : s.peek? = some t) : Settled true s.advance := by
  have hlt := frontier_lt_advance h.tokens ht
  have hfresh : ∀ p ∈ s.advance.problems, p.span.stop < frontier s.advance := by
    intro p hp
    rw [TokenStream.problems_advance] at hp
    have := h.behind p hp
    omega
  refine ⟨?_, ?_, fun p hp => Nat.le_of_lt (hfresh p hp), fun _ => hfresh⟩
  · rw [tokens_advance]
    exact h.tokens
  · rw [TokenStream.problems_advance]
    exact h.ordered

/-- A report behind all problems, at the end of what is consumed at most. -/
theorem Settled.report {id : MessageId} {span : Span} {detail : Detail} (h : Settled b s)
    (hstart : ∀ p ∈ s.problems, p.span.stop < span.start) (hstop : span.stop ≤ frontier s) :
    Settled false (s.report id span detail) := by
  refine ⟨h.tokens, ?_, ?_, fun h => absurd h Bool.false_ne_true⟩
  · refine List.pairwise_append.mpr ⟨h.ordered, List.pairwise_singleton _ _, ?_⟩
    intro p hp q hq
    rw [List.mem_singleton.mp hq]
    exact hstart p hp
  · intro p hp
    rw [frontier_report]
    rcases List.mem_append.mp hp with hp | hp
    · exact h.behind p hp
    · rw [List.mem_singleton.mp hp]
      exact hstop

theorem Settled.stop_lt (h : Settled b s) (hb : b = true ∨ s.problems = []) :
    ∀ p ∈ s.problems, p.span.stop < frontier s := by
  intro p hp
  rcases hb with hb | hb
  · exact h.fresh hb p hp
  · rw [hb] at hp
    cases hp

/-- **Every step keeps the problems in order.** -/
theorem Settled.step (h : Settled b s) (hstep : Step b s ms b' s') : Settled b' s' := by
  cases hstep with
  | pass ht hl => exact h.advance ht
  | name ht hl => exact h.advance ht
  | @unexpected t hb ht hl =>
    refine (h.advance ht).report ?_ (by rw [frontier_advance ht])
    intro p hp
    rw [TokenStream.problems_advance] at hp
    exact Nat.lt_of_lt_of_le (h.stop_lt hb p hp) (frontier_le h.tokens ht)
  | missing hb hid => exact h.report (h.stop_lt (hb.imp_right And.left)) (Nat.le_refl _)

theorem Settled.progress (h : Settled b s) (hrun : Progress b s ms b' s') : Settled b' s' := by
  induction hrun with
  | done hb => exact ⟨h.tokens, h.ordered, h.behind, fun h' => h.fresh (hb h')⟩
  | step hstep _ ih => exact ih (h.step hstep)

end Grammar

namespace Parse

open Grammar

theorem settled_ofSource (source : String) : Settled false (units (TokenStream.ofTokens () (scan source))).2 := by
  have hstart : Settled false (TokenStream.ofTokens () (scan source)) :=
    ⟨spaced_scan source, .nil, fun p hp => absurd hp List.not_mem_nil, fun h => absurd h Bool.false_ne_true⟩
  exact hstart.progress (progress_ofTokens _)

/-- **Problems stand in the order of the source.** Each is within it, over an unexpected token or between characters at
the end of a token, and ends before the next one begins. -/
theorem problems_in_order (source : String) :
    (∀ p ∈ (ofSource source).problems, p.span.start ≤ p.span.stop ∧ p.span.stop ≤ source.length ∧
      ∃ t ∈ scan source, p.id = .unexpectedToken ∧ p.span = t.span ∨
        p.id ≠ .unexpectedToken ∧ p.span = Span.insertion t.span.stop) ∧
      (ofSource source).problems.Pairwise fun p q => p.span.stop < q.span.start := by
  refine ⟨fun p hp => ?_, (settled_ofSource source).ordered⟩
  have htokens := tokenizes_scan source
  cases problems_at (scan source) p hp with
  | @unexpected t ht =>
    have hlt := htokens.nonempty t ht
    have hle := htokens.within t ht
    exact ⟨Nat.le_of_lt hlt, hle, t, ht, .inl ⟨rfl, rfl⟩⟩
  | @missing t id ht hid =>
    have hle := htokens.within t ht
    exact ⟨Nat.le_refl _, hle, t, ht, .inr ⟨hid, rfl⟩⟩

/-- What is missing behind a caret, a token that is no term, and what is missing behind a star. -/
example : (ofSource "m^ * ^ *").problems.map (fun p => (p.span.start, p.span.stop)) = [(2, 2), (5, 6), (8, 8)] := by
  decide +kernel

end Parse
end Dimensional
