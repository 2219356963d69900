import Dimensional.Proofs.Expression.Acceptance

/-!
# What the rules read

Whatever a source says, the rules take few kinds of actions: they pass over a token, read it as a name, report it and
take it as a factor, pass over the slash of the fraction, or report that something is missing behind the last token
(`Action`). A name gives a factor with the exponent that is written behind it (`exponentBehind`), and behind the slash of
the fraction the exponents are negated (`Stop.side`). Between two reports a token is consumed; the flags tell whether a
report is in order.

The main statement is `reading_fraction`: a fraction is read by a run of such actions.
-/

namespace Dimensional

/-- The factor that stands in for a token that cannot start a term. -/
def Token.bracketed (t : Token) : Factor := ⟨"(" ++ t.surface ++ ")", 1, t.span⟩

namespace TokenStream

variable {s : TokenStream ()} {t : Token} {l : Lexeme}

def lexemes (s : TokenStream ()) : List Lexeme := s.remaining.map Token.lexeme

theorem peekLexeme?_eq (s : TokenStream ()) : s.peekLexeme? = s.lexemes.head? := by
  rw [peekLexeme?, peek?, lexemes, List.head?_map]

theorem lexemes_advance (s : TokenStream ()) : s.advance.lexemes = s.lexemes.tail := by
  rw [lexemes, lexemes, remaining_advance, List.map_tail]

theorem remaining_of_peek? (ht : s.peek? = some t) : s.remaining = t :: s.advance.remaining := by
  obtain ⟨rest, hrest⟩ := List.head?_eq_some_iff.mp ht
  rw [remaining_advance, hrest, List.tail_cons]

theorem consumed_advance (ht : s.peek? = some t) : s.advance.consumed = t :: s.consumed := by
  obtain ⟨rest, hrest⟩ := List.head?_eq_some_iff.mp ht
  simp [TokenStream.advance, hrest]

theorem consumed_advance_ne_nil (ht : s.peek? = some t) : s.advance.consumed ≠ [] := by
  rw [consumed_advance ht]
  exact List.cons_ne_nil _ _

theorem skip_of_eq (h : s.peekLexeme? = some l) : s.skip l = (true, s.advance) := by
  rw [skip, if_pos h]

theorem skip_of_ne (h : s.peekLexeme? ≠ some l) : s.skip l = (false, s) := by
  rw [skip, if_neg h]

end TokenStream

namespace Grammar

open TokenStream

variable {s : TokenStream ()} {t : Token} {e f : List Factor} {b c : Bool} {stop : Stop}

/-! ### Written exponents -/

/-- The integer at the start of some lexemes, a sign and a magnitude in one script. A missing one counts as 1. -/
def integerAt (sign : Lexeme) (value? : Lexeme → Option Nat) (ls : List Lexeme) : Int :=
  if ls.head? = some sign then ((ls.tail.head?.bind value?).map fun n => -magnitude n).getD 1
  else ((ls.head?.bind value?).map magnitude).getD 1

/-- The exponent that is written behind a name, whether or not the caret in front of a minus sign is missing. -/
def exponentBehind : List Lexeme → Int
  | .caret :: ls => integerAt .minus natural? ls
  | .minus :: ls => integerAt .minus natural? (.minus :: ls)
  | ls => integerAt .superscriptMinus superscript? ls

theorem integerAt_bounds (sign : Lexeme) (value? : Lexeme → Option Nat) (ls : List Lexeme) :
    -Exponent.greatest ≤ integerAt sign value? ls ∧ integerAt sign value? ls ≤ Exponent.greatest := by
  unfold integerAt
  split
  · cases ls.tail.head?.bind value? with
    | none => exact one_bounds
    | some n =>
      have := magnitude_bounds n
      show -Exponent.greatest ≤ -magnitude n ∧ -magnitude n ≤ Exponent.greatest
      omega
  · cases ls.head?.bind value? with
    | none => exact one_bounds
    | some n =>
      have := magnitude_bounds n
      show -Exponent.greatest ≤ magnitude n ∧ magnitude n ≤ Exponent.greatest
      omega

theorem exponentBehind_bounds (ls : List Lexeme) :
    -Exponent.greatest ≤ exponentBehind ls ∧ exponentBehind ls ≤ Exponent.greatest := by
  unfold exponentBehind
  split <;> exact integerAt_bounds _ _ _

theorem val_signedInteger (sign : Lexeme) (value? : Lexeme → Option Nat) (s : TokenStream ()) :
    (signedInteger sign value? s).1.val = integerAt sign value? s.lexemes := by
  by_cases hsign : s.lexemes.head? = some sign
  · rw [integerAt, if_pos hsign, signedInteger, skip_of_eq (by rw [peekLexeme?_eq, hsign]), expect, peekLexeme?_eq,
      lexemes_advance]
    cases s.lexemes.tail.head?.bind value? with
    | none => rfl
    | some n => exact val_signed true n
  · rw [integerAt, if_neg hsign, signedInteger, skip_of_ne (by rwa [peekLexeme?_eq]), expect, peekLexeme?_eq]
    cases s.lexemes.head?.bind value? with
    | none => rfl
    | some n => exact val_signed false n

/-- The exponent that is read is the written one. -/
theorem val_exponent (name : Span) (s : TokenStream ()) : (exponent name s).1.val = exponentBehind s.lexemes := by
  have hadvance := lexemes_advance s
  unfold exponent
  rw [peekLexeme?_eq]
  cases hls : s.lexemes with
  | nil => rfl
  | cons l ls =>
    rw [hls, List.tail_cons] at hadvance
    cases l with
    | caret =>
      show (integer s.advance).1.val = integerAt _ _ ls
      rw [integer_eq, val_signedInteger, hadvance]
    | minus =>
      show (integer (s.report _ _ _)).1.val = integerAt _ _ (.minus :: ls)
      rw [integer_eq, val_signedInteger, ← hls]
      rfl
    | superscriptMinus | superscript n =>
      show (superscriptInteger s).1.val = integerAt _ _ (_ :: ls)
      rw [superscriptInteger_eq, val_signedInteger, hls]
    | name | natural | star | slash => rfl

/-! ### The sides of the slash -/

def Stop.side : Stop → Factor → Factor
  | .slash, f => f
  | .never, f => f.inverse

/-- The factors of the whole expression that come of the terms on one side of the slash. -/
def Stop.factors (stop : Stop) (e : Expression) : List Factor :=
  e.map fun t => stop.side (Factor.ofTerm t)

theorem Stop.factors_append (stop : Stop) (e f : Expression) :
    stop.factors (e ++ f) = stop.factors e ++ stop.factors f := List.map_append

theorem Stop.factors_never (e : Expression) :
    Stop.never.factors e = (e.map Factor.ofTerm).map Factor.inverse := by
  rw [List.map_map]
  rfl

/-! ### Actions and runs -/

/-- A stream, the side of the slash where it stands, and whether a token has been consumed since the last report. -/
structure Reader where
  side : Stop
  fresh : Bool
  stream : TokenStream ()

/-- One thing that the rules do, and the factors of the whole expression that come of it. -/
inductive Action : Reader → List Factor → Reader → Prop
  | pass {stop : Stop} {b : Bool} {s : TokenStream ()} {t : Token} (ht : s.peek? = some t)
      (hstop : stop.isAt t.lexeme = false) (hl : ∀ n, t.lexeme ≠ .name n) :
      Action ⟨stop, b, s⟩ [] ⟨stop, true, s.advance⟩
  | name {stop : Stop} {b : Bool} {s : TokenStream ()} {t : Token} {n : String} (ht : s.peek? = some t)
      (hl : t.lexeme = .name n) :
      Action ⟨stop, b, s⟩ [stop.side ⟨n, exponentBehind s.advance.lexemes, t.span⟩] ⟨stop, true, s.advance⟩
  | unexpected {stop : Stop} {b : Bool} {s : TokenStream ()} {t : Token} (hb : b = true ∨ s.problems = [])
      (ht : s.peek? = some t) (hstop : stop.isAt t.lexeme = false) (hl : ∀ n, t.lexeme ≠ .name n) :
      Action ⟨stop, b, s⟩ [stop.side t.bracketed]
        ⟨stop, false, s.advance.report .unexpectedToken t.span (.token t.surface)⟩
  | slash {b : Bool} {s : TokenStream ()} {t : Token} (ht : s.peek? = some t) (hl : t.lexeme = .slash) :
      Action ⟨.slash, b, s⟩ [] ⟨.never, true, s.advance⟩
  | missing {stop : Stop} {s : TokenStream ()} {id : MessageId} (hid : id ≠ .unexpectedToken)
      (hend : id ≠ .endOfSourceRequired) : Action ⟨stop, true, s⟩ [] ⟨stop, false, s.reportMissing id⟩

/-- Some actions one after the other. At the end the flag may be dropped. -/
inductive Reading : Reader → List Factor → Reader → Prop
  | done {stop : Stop} {b b' : Bool} {s : TokenStream ()} (hb : b' = true → b = true) :
      Reading ⟨stop, b, s⟩ [] ⟨stop, b', s⟩
  | step {r r' r'' : Reader} {e f : List Factor} (h : Action r e r') (hr : Reading r' f r'') : Reading r (e ++ f) r''

variable {r r' r'' : Reader}

theorem Action.mono (h : Action ⟨stop, b, s⟩ e r) (hb : b = true → c = true) : Action ⟨stop, c, s⟩ e r := by
  cases h with
  | pass ht hstop hl => exact .pass ht hstop hl
  | name ht hl => exact .name ht hl
  | unexpected hf ht hstop hl => exact .unexpected (hf.imp_left hb) ht hstop hl
  | slash ht hl => exact .slash ht hl
  | missing hid hend =>
    rw [hb rfl]
    exact .missing hid hend

theorem Reading.mono (h : Reading ⟨stop, b, s⟩ e r) (hb : b = true → c = true) : Reading ⟨stop, c, s⟩ e r := by
  cases h with
  | done hd => exact .done fun h => hb (hd h)
  | step h hr => exact .step (h.mono hb) hr

theorem reading_stay (stop : Stop) (b : Bool) (s : TokenStream ()) : Reading ⟨stop, b, s⟩ [] ⟨stop, false, s⟩ :=
  .done fun h => absurd h Bool.false_ne_true

theorem Reading.of_action (h : Action r e ⟨stop, b, s⟩) : Reading r e ⟨stop, false, s⟩ := by
  have hrun := Reading.step h (reading_stay stop b s)
  rwa [List.append_nil] at hrun

theorem Reading.trans (h : Reading r e r') (h' : Reading r' f r'') : Reading r (e ++ f) r'' := by
  induction h with
  | done hd => exact h'.mono hd
  | step h _ ih =>
    rw [List.append_assoc]
    exact .step h (ih h')

/-- An action without a factor in front of a run. -/
theorem Reading.head (h : Action r [] r') (hr : Reading r' e r'') : Reading r e r'' :=
  .step h hr

/-- Exponents keep their size when they are negated. -/
theorem Reading.bounded (h : Reading r e r') : Bounded e := by
  have hside : ∀ (stop : Stop) {f : Factor}, Bounded [f] → Bounded [stop.side f] := by
    intro stop f hf
    cases stop with
    | slash => exact hf
    | never => exact bounded_inverse_iff.mpr hf
  induction h with
  | done => exact fun f hf => absurd hf List.not_mem_nil
  | step h _ ih =>
    apply Bounded.append _ ih
    cases h with
    | pass | slash | missing => exact fun f hf => absurd hf List.not_mem_nil
    | name =>
      apply hside
      intro f hf
      rw [List.mem_singleton.mp hf]
      exact exponentBehind_bounds _
    | unexpected =>
      apply hside
      intro f hf
      rw [List.mem_singleton.mp hf]
      exact one_bounds

/-! ### Exponents -/

theorem not_isAt (stop : Stop) {l : Lexeme} (h : l ≠ .slash) : stop.isAt l = false := by
  cases stop <;> simp [Stop.isAt, h]

/-- Lexemes that are passed over wherever they are met. -/
def Passed (l : Lexeme) : Prop := l ≠ .slash ∧ ∀ n, l ≠ .name n

theorem Action.of_passed {l : Lexeme} (hp : s.peekLexeme? = some l) (hl : Passed l) :
    Action ⟨stop, b, s⟩ [] ⟨stop, true, s.advance⟩ := by
  obtain ⟨t, ht, rfl⟩ := peek?_of_peekLexeme? hp
  exact .pass ht (not_isAt stop hl.1) hl.2

/-- A sign is consumed, so a number may be missing behind it whether or not the last report is right in front. -/
theorem reading_signedInteger {sign : Lexeme} {value? : Lexeme → Option Nat} (hsign : Passed sign)
    (hv : ∀ l n, value? l = some n → Passed l) (hb : b = true ∨ s.peekLexeme? = some sign) :
    Reading ⟨stop, b, s⟩ [] ⟨stop, false, (signedInteger sign value? s).2⟩ := by
  have hexpect : ∀ s : TokenStream (),
      Reading ⟨stop, true, s⟩ [] ⟨stop, false, (s.expect .numberRequired value?).2⟩ := by
    intro s
    unfold expect
    split
    · next n hn =>
      obtain ⟨l, hl, hln⟩ := Option.bind_eq_some_iff.mp hn
      exact .of_action (.of_passed hl (hv l n hln))
    · exact .of_action (.missing (by decide) (by decide))
  by_cases hp : s.peekLexeme? = some sign
  · rw [signedInteger, skip_of_eq hp]
    exact .head (.of_passed hp hsign) (hexpect s.advance)
  · obtain rfl := hb.resolve_right hp
    rw [signedInteger, skip_of_ne hp]
    exact hexpect s

theorem reading_integer (hb : b = true ∨ s.peekLexeme? = some .minus) :
    Reading ⟨stop, b, s⟩ [] ⟨stop, false, (integer s).2⟩ := by
  refine reading_signedInteger ⟨by simp, by simp⟩ (fun l n hn => ?_) hb
  rw [natural?_eq_some_iff.mp hn]
  exact ⟨by simp, by simp⟩

theorem reading_superscriptInteger : Reading ⟨stop, true, s⟩ [] ⟨stop, false, (superscriptInteger s).2⟩ := by
  refine reading_signedInteger ⟨by simp, by simp⟩ (fun l n hn => ?_) (.inl rfl)
  rw [superscript?_eq_some_iff.mp hn]
  exact ⟨by simp, by simp⟩

theorem reading_exponent (ht : s.consumed.head? = some t) :
    Reading ⟨stop, true, s⟩ [] ⟨stop, false, (exponent t.span s).2⟩ := by
  unfold exponent
  split
  · next hl => exact .head (.of_passed hl ⟨by simp, by simp⟩) (reading_integer (.inl rfl))
  · exact reading_superscriptInteger
  · exact reading_superscriptInteger
  · next hl =>
    -- the caret is missing behind the name, which is the last token consumed
    have hreport : s.report .exponentSymbolRequired (Span.insertion t.span.stop) .none =
        s.reportMissing .exponentSymbolRequired := by
      rw [reportMissing, missingSpan, ht]
      rfl
    rw [hreport]
    exact .head (.missing (by decide) (by decide)) (reading_integer (.inr hl))
  · exact reading_stay stop true s

/-! ### Terms -/

/-- A token in front of the stream is consumed, whatever comes of it. -/
theorem reading_term_of_peek (ht : s.peek? = some t) (hstop : stop.isAt t.lexeme = false)
    (hb : b = true ∨ s.problems = [] ∨ startsTerm t = true) :
    Reading ⟨stop, b, s⟩ (stop.factors (term stop s).1) ⟨stop, false, (term stop s).2⟩ := by
  simp only [term, ht, hstop, Bool.false_eq_true, if_false]
  split
  · next n hl =>
    have hexponent : Reading ⟨stop, true, s.advance⟩ [] ⟨stop, false, (exponent t.span s.advance).2⟩ :=
      reading_exponent (by rw [consumed_advance ht, List.head?_cons])
    show Reading ⟨stop, b, s⟩ [stop.side ⟨n, (exponent t.span s.advance).1.val, t.span⟩] _
    rw [val_exponent]
    exact .step (.name ht hl) hexponent
  · next hl =>
    split
    · exact .of_action (.pass ht hstop hl)
    · next hone =>
      have hstarts : startsTerm t ≠ true := by
        intro h
        unfold startsTerm at h
        split at h
        · next n hn => exact hl n hn
        · exact hone h
      have hb' : b = true ∨ s.problems = [] := by
        rcases hb with hb | hb | hb
        · exact .inl hb
        · exact .inr hb
        · exact absurd hb hstarts
      exact .of_action (.unexpected hb' ht hstop hl)

/-- Behind a token that has been consumed, a term may be missing. -/
theorem reading_term (stop : Stop) (s : TokenStream ()) :
    Reading ⟨stop, true, s⟩ (stop.factors (term stop s).1) ⟨stop, false, (term stop s).2⟩ := by
  have hmissing : Reading ⟨stop, true, s⟩ [] ⟨stop, false, s.reportMissing .unitNameRequired⟩ :=
    .of_action (.missing (by decide) (by decide))
  cases ht : s.peek? with
  | none =>
    simp only [term, ht]
    exact hmissing
  | some t =>
    cases hstop : stop.isAt t.lexeme with
    | false => exact reading_term_of_peek ht hstop (.inl rfl)
    | true =>
      simp only [term, ht, hstop, if_true]
      exact hmissing

theorem reading_tailTerms (b : Bool) (stop : Stop) (s : TokenStream ()) :
    Reading ⟨stop, b, s⟩ (stop.factors (tailTerms stop s).1) ⟨stop, false, (tailTerms stop s).2⟩ := by
  fun_induction tailTerms stop s generalizing b with
  | case1 s hp => exact reading_stay stop b s
  | case2 s t hp hstop => exact reading_stay stop b s
  | case3 s t hp hstop hl first more ih =>
    have hstar : Action ⟨stop, b, s⟩ [] ⟨stop, true, s.advance⟩ :=
      .pass hp (not_isAt stop (by simp [hl])) (by simp [hl])
    rw [stop.factors_append]
    exact .head hstar ((reading_term stop s.advance).trans (ih false))
  | case4 s t hp hstop hl hstarts first more ih =>
    rw [stop.factors_append]
    exact (reading_term_of_peek hp (not_isAt_of_startsTerm stop hstarts) (.inr (.inr hstarts))).trans (ih false)
  | case5 s t hp hstop hl hstarts => exact reading_stay stop b s

theorem reading_terms (stop : Stop) (s : TokenStream ()) :
    Reading ⟨stop, true, s⟩ (stop.factors (terms stop s).1) ⟨stop, false, (terms stop s).2⟩ := by
  rw [terms, stop.factors_append]
  exact (reading_term stop s).trans (reading_tailTerms false stop _)

/-! ### Fractions -/

theorem reading_numerator (b : Bool) (hs : s.problems = []) :
    Reading ⟨.slash, b, s⟩ (Stop.slash.factors (numerator s).1) ⟨.slash, false, (numerator s).2⟩ := by
  unfold numerator
  split
  · exact reading_stay .slash b s
  · exact reading_stay .slash b s
  · next l hslash hl =>
    obtain ⟨t, ht, rfl⟩ := peek?_of_peekLexeme? hl
    have hstop : Stop.slash.isAt t.lexeme = false := not_isAt .slash fun h => hslash (by rw [h])
    rw [terms, Stop.factors_append]
    exact (reading_term_of_peek ht hstop (.inr (.inl hs))).trans (reading_tailTerms false .slash _)

theorem reading_denominator (s : TokenStream ()) :
    Reading ⟨.never, true, s⟩ (Stop.never.factors (denominator s).1) ⟨.never, false, (denominator s).2⟩ := by
  unfold denominator
  split
  · exact reading_stay .never true s
  · exact reading_terms .never s

/-- A fraction is a numerator that no slash follows, or a numerator, a slash and a denominator. -/
theorem fraction_cases (s : TokenStream ()) :
    (fraction s = numerator s ∧ (numerator s).2.peekLexeme? ≠ some .slash) ∨
    (fraction s = ((numerator s).1 ++ Expression.reciprocal (denominator (numerator s).2.advance).1,
        (denominator (numerator s).2.advance).2) ∧ (numerator s).2.peekLexeme? = some .slash) := by
  by_cases hp : (numerator s).2.peekLexeme? = some .slash
  · refine .inr ⟨?_, hp⟩
    simp only [fraction, skip_of_eq hp, if_true]
  · refine .inl ⟨?_, hp⟩
    simp only [fraction, skip_of_ne hp, Bool.false_eq_true, if_false]

/-- What is left over is reported where nothing was reported before. -/
theorem units_cases (s : TokenStream ()) :
    (units s = fraction s ∧ ((fraction s).2.remaining = [] ∨ (fraction s).2.problems ≠ [])) ∨
    (units s = ((fraction s).1, (fraction s).2.reportMissing .endOfSourceRequired) ∧
      (fraction s).2.remaining ≠ [] ∧ (fraction s).2.problems = []) := by
  cases hstop : (fraction s).2.isAtEnd || !(fraction s).2.problems.isEmpty with
  | true =>
    refine .inl ⟨by simp only [units, hstop, if_true], ?_⟩
    rwa [Bool.or_eq_true, isAtEnd, List.isEmpty_iff, Bool.not_eq_true', List.isEmpty_eq_false_iff] at hstop
  | false =>
    refine .inr ⟨by simp only [units, hstop, Bool.false_eq_true, if_false], ?_⟩
    rwa [Bool.or_eq_false_iff, isAtEnd, List.isEmpty_eq_false_iff, Bool.not_eq_false', List.isEmpty_iff] at hstop

/-- **A fraction is read by a run of actions**, and its terms are the factors that come of them. -/
theorem reading_fraction (b : Bool) (hs : s.problems = []) :
    ∃ stop, Reading ⟨.slash, b, s⟩ ((fraction s).1.map Factor.ofTerm) ⟨stop, false, (fraction s).2⟩ := by
  have habove := reading_numerator b hs
  rcases fraction_cases s with ⟨heq, -⟩ | ⟨heq, hp⟩
  · rw [heq]
    exact ⟨.slash, habove⟩
  · obtain ⟨t, ht, hl⟩ := peek?_of_peekLexeme? hp
    have hbelow := reading_denominator (numerator s).2.advance
    have hbounded := hbelow.bounded
    rw [Stop.factors_never, bounded_inverse_iff] at hbounded
    rw [heq, List.map_append, map_ofTerm_reciprocal hbounded, ← Stop.factors_never]
    exact ⟨.never, habove.trans (.head (.slash ht hl) hbelow)⟩

end Grammar
end Dimensional
