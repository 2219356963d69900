import Dimensional.Proofs.Expression.Derivation

/-!
# What the parser accepts

Each rule of the parser against the relation of the same name. `x_sound`: a rule that ends without a report read tokens
that the grammar derives. `x_complete`: a rule in front of derivable tokens reads just these, without a report.
A stream without reports is described by what remains of it (`TokenStream.Clean`).

The main statement is `accepts_exactly`: the parser reports nothing exactly on the lists that the grammar derives, and
returns their meaning.
-/

namespace Dimensional

variable {γ δ : Type} [Reporting γ δ] {context : γ}

/-! ### Streams without reports -/

namespace TokenStream

variable {s : TokenStream context} {t : Token} {ts : List Token} {id : MessageId}

/-- Nothing has been reported, and the tokens to come are `ts`. -/
structure Clean (s : TokenStream context) (ts : List Token) : Prop where
  remaining : s.remaining = ts
  problems : s.problems = []

theorem clean_ofTokens (context : γ) (tokens : List Token) : (ofTokens context tokens).Clean tokens := ⟨rfl, rfl⟩

theorem problems_advance (s : TokenStream context) : s.advance.problems = s.problems := by
  unfold advance
  split <;> rfl

theorem Clean.peek? (h : s.Clean ts) : s.peek? = ts.head? := by
  rw [TokenStream.peek?, h.remaining]

theorem Clean.isAtEnd (h : s.Clean ts) : s.isAtEnd = ts.isEmpty := by
  rw [TokenStream.isAtEnd, h.remaining]

theorem Clean.advance (h : s.Clean (t :: ts)) : s.advance.Clean ts :=
  ⟨by rw [remaining_advance, h.remaining, List.tail_cons], by rw [problems_advance, h.problems]⟩

theorem Clean.of_advance (ht : s.peek? = some t) (h : s.advance.Clean ts) : s.Clean (t :: ts) := by
  refine ⟨?_, problems_advance s ▸ h.problems⟩
  have hr := h.remaining
  rw [remaining_advance] at hr
  obtain ⟨us, hus⟩ := List.head?_eq_some_iff.mp ht
  rw [hus] at hr ⊢
  rw [← hr, List.tail_cons]

theorem not_clean_report {span : Span} {detail : Detail} : ¬ (s.report id span detail).Clean ts := by
  intro h
  have := h.problems
  simp [report] at this

theorem not_clean_reportMissing : ¬ (s.reportMissing id).Clean ts := not_clean_report

theorem peek?_of_peekLexeme? {l : Lexeme} (h : s.peekLexeme? = some l) : ∃ t, s.peek? = some t ∧ t.lexeme = l :=
  Option.map_eq_some_iff.mp h

theorem Clean.peekLexeme? (h : s.Clean ts) : s.peekLexeme? = ts.head?.map Token.lexeme := by
  rw [TokenStream.peekLexeme?, h.peek?]

theorem skip_sound {l : Lexeme} (h : (s.skip l).2.Clean ts) :
    ((s.skip l).1 = true ∧ ∃ t, t.lexeme = l ∧ s.Clean (t :: ts)) ∨ ((s.skip l).1 = false ∧ s.Clean ts) := by
  unfold skip at h ⊢
  split
  · next hl =>
    rw [if_pos hl] at h
    obtain ⟨t, ht, htl⟩ := peek?_of_peekLexeme? hl
    exact .inl ⟨rfl, t, htl, .of_advance ht h⟩
  · next hl =>
    rw [if_neg hl] at h
    exact .inr ⟨rfl, h⟩

theorem skip_of_head (h : s.Clean (t :: ts)) : s.skip t.lexeme = (true, s.advance) := by
  rw [skip, if_pos (by rw [h.peekLexeme?]; rfl)]

theorem skip_of_not_head (l : Lexeme) (h : s.Clean ts) (hl : ∀ t ∈ ts.head?, t.lexeme ≠ l) :
    s.skip l = (false, s) := by
  rw [skip, if_neg]
  rw [h.peekLexeme?]
  intro hm
  obtain ⟨t, ht, htl⟩ := Option.map_eq_some_iff.mp hm
  exact hl t ht htl

variable {α : Type} {value? : Lexeme → Option α}

theorem expect_sound (h : (s.expect id value?).2.Clean ts) :
    ∃ t a, value? t.lexeme = some a ∧ (s.expect id value?).1 = some a ∧ s.Clean (t :: ts) := by
  unfold expect at h ⊢
  split
  · next a ha =>
    simp only [ha] at h
    obtain ⟨l, hl, hv⟩ := Option.bind_eq_some_iff.mp ha
    obtain ⟨t, ht, rfl⟩ := peek?_of_peekLexeme? hl
    exact ⟨t, a, hv, rfl, .of_advance ht h⟩
  · next ha =>
    simp only [ha] at h
    exact absurd h not_clean_reportMissing

theorem expect_of_head (id : MessageId) {a : α} (h : s.Clean (t :: ts)) (ha : value? t.lexeme = some a) :
    s.expect id value? = (some a, s.advance) := by
  have hp : s.peekLexeme? = some t.lexeme := h.peekLexeme?
  simp only [expect, hp, Option.bind_some, ha]

end TokenStream

namespace Grammar

variable {s : TokenStream context} {rest ts : List Token} {t : Token} {e : List Factor}

/-! ### Exponents -/

def signedInteger (sign : Lexeme) (value? : Lexeme → Option Nat) (s : TokenStream context) :
    Exponent × TokenStream context :=
  let read := s.skip sign
  let magnitude := read.2.expect .numberRequired value?
  (signed read.1 magnitude.1, magnitude.2)

theorem integer_eq (s : TokenStream context) : integer s = signedInteger .minus natural? s := rfl

theorem superscriptInteger_eq (s : TokenStream context) :
    superscriptInteger s = signedInteger .superscriptMinus superscript? s := rfl

theorem natural?_eq_some_iff {l : Lexeme} {n : Nat} : natural? l = some n ↔ l = .natural n := by
  cases l <;> simp [natural?]

theorem superscript?_eq_some_iff {l : Lexeme} {n : Nat} : superscript? l = some n ↔ l = .superscript n := by
  cases l <;> simp [superscript?]

theorem val_ofInt_natCast (n : Nat) : (Exponent.ofInt n).val = magnitude n := by
  simp only [Exponent.ofInt, magnitude, Exponent.least, Exponent.greatest]
  omega

theorem val_neg_of_bounds {a : Exponent} (h : a.val ≤ Exponent.greatest) (h' : -Exponent.greatest ≤ a.val) :
    (-a).val = -a.val := by
  rw [Exponent.val_neg]
  simp only [Exponent.least, Exponent.greatest] at *
  omega

theorem val_signed (negative : Bool) (n : Nat) :
    (signed negative (some n)).val = if negative then -magnitude n else magnitude n := by
  have hm := magnitude_bounds n
  cases negative with
  | false => exact val_ofInt_natCast n
  | true =>
    show (-Exponent.ofInt n).val = -magnitude n
    rw [val_neg_of_bounds, val_ofInt_natCast] <;> rw [val_ofInt_natCast] <;> omega

section Signed

variable {sign : Lexeme} {digits : Nat → Lexeme} {value? : Lexeme → Option Nat}

theorem signedInteger_sound (hv : ∀ l n, value? l = some n ↔ l = digits n)
    (h : (signedInteger sign value? s).2.Clean rest) :
    ∃ ts, s.Clean (ts ++ rest) ∧ IsInteger sign digits ts (signedInteger sign value? s).1.val := by
  obtain ⟨t, n, hn, hread, hc⟩ := TokenStream.expect_sound h
  have hval : (signedInteger sign value? s).1 = signed (s.skip sign).1 (some n) := by
    simp only [signedInteger, hread]
  rw [hval, val_signed]
  rcases TokenStream.skip_sound hc with ⟨hs, m, hm, hc⟩ | ⟨hs, hc⟩
  · rw [hs, if_pos rfl]
    exact ⟨[m, t], hc, .negated hm ((hv _ _).mp hn)⟩
  · rw [hs, if_neg Bool.false_ne_true]
    exact ⟨[t], hc, .plain ((hv _ _).mp hn)⟩

theorem signedInteger_complete (hv : ∀ l n, value? l = some n ↔ l = digits n) (hs : ∀ n, digits n ≠ sign) {k : Int}
    (hc : s.Clean (ts ++ rest)) (h : IsInteger sign digits ts k) :
    (signedInteger sign value? s).2.Clean rest ∧ (signedInteger sign value? s).1.val = k := by
  cases h with
  | @plain t n ht =>
    have hskip : s.skip sign = (false, s) := by
      refine TokenStream.skip_of_not_head sign hc fun u hu => ?_
      obtain rfl : t = u := Option.some.inj hu
      rw [ht]
      exact hs n
    have hread := TokenStream.expect_of_head .numberRequired hc ((hv _ _).mpr ht)
    simp only [signedInteger, hskip, hread]
    exact ⟨hc.advance, val_signed false n⟩
  | @negated m t n hm ht =>
    have hskip : s.skip sign = (true, s.advance) := hm ▸ TokenStream.skip_of_head hc
    have hread := TokenStream.expect_of_head .numberRequired hc.advance ((hv _ _).mpr ht)
    simp only [signedInteger, hskip, hread]
    exact ⟨hc.advance.advance, val_signed true n⟩

end Signed

theorem exponent_sound (name : Span) (h : (exponent name s).2.Clean rest) :
    ((exponent name s).1 = 1 ∧ s.Clean rest) ∨
      ∃ ts, s.Clean (ts ++ rest) ∧ IsExponent ts (exponent name s).1.val := by
  unfold exponent at h ⊢
  split
  · next hl =>
    simp only [hl] at h
    obtain ⟨c, hc, hcl⟩ := TokenStream.peek?_of_peekLexeme? hl
    obtain ⟨ts, hts, hi⟩ := signedInteger_sound (fun _ _ => natural?_eq_some_iff) h
    exact .inr ⟨c :: ts, .of_advance hc hts, .caret hcl hi⟩
  · next hl =>
    simp only [hl] at h
    obtain ⟨ts, hts, hi⟩ := signedInteger_sound (fun _ _ => superscript?_eq_some_iff) h
    exact .inr ⟨ts, hts, .superscript hi⟩
  · next hl =>
    simp only [hl] at h
    obtain ⟨ts, hts, hi⟩ := signedInteger_sound (fun _ _ => superscript?_eq_some_iff) h
    exact .inr ⟨ts, hts, .superscript hi⟩
  · next hl =>
    -- the missing caret has been reported, whatever follows
    simp only [hl] at h
    obtain ⟨ts, hts, -⟩ := signedInteger_sound (fun _ _ => natural?_eq_some_iff) h
    exact absurd hts TokenStream.not_clean_report
  · next h₁ h₂ h₃ h₄ =>
    split at h
    · next hl => exact absurd hl h₁
    · next hl => exact absurd hl h₂
    · next n hl => exact absurd hl (h₃ n)
    · next hl => exact absurd hl h₄
    · exact .inl ⟨rfl, h⟩

theorem exponent_complete (name : Span) {k : Int} (hc : s.Clean (ts ++ rest)) (h : IsExponent ts k) :
    (exponent name s).2.Clean rest ∧ (exponent name s).1.val = k := by
  cases h with
  | @caret c us k hcl h =>
    have hp : s.peekLexeme? = some .caret := hc.peekLexeme?.trans (congrArg some hcl)
    have he : exponent name s = integer s.advance := by simp only [exponent, hp]
    rw [he, integer_eq]
    exact signedInteger_complete (fun _ _ => natural?_eq_some_iff) (by simp) hc.advance h
  | superscript h =>
    have he : exponent name s = superscriptInteger s := by
      cases h with
      | plain ht =>
        have hp := hc.peekLexeme?.trans (congrArg some ht)
        simp only [exponent, hp]
      | negated hm ht =>
        have hp := hc.peekLexeme?.trans (congrArg some hm)
        simp only [exponent, hp]
    rw [he, superscriptInteger_eq]
    exact signedInteger_complete (fun _ _ => superscript?_eq_some_iff) (by simp) hc h

theorem exponent_of_free (name : Span) (hc : s.Clean rest) (hf : Free rest) : exponent name s = (1, s) := by
  have hp := hc.peekLexeme?
  cases rest with
  | nil =>
    simp only [List.head?_nil, Option.map_none] at hp
    simp only [exponent, hp]
  | cons t rest =>
    have ht : opensExponent t.lexeme = false := hf t rfl
    simp only [List.head?_cons, Option.map_some] at hp
    cases hl : t.lexeme <;> rw [hl] at ht hp <;> simp only [exponent, hp] <;> cases ht

/-! ### Terms -/

variable {stop : Stop}

theorem not_isAt_of_startsTerm (stop : Stop) (h : startsTerm t = true) : stop.isAt t.lexeme = false := by
  cases stop <;> cases hl : t.lexeme <;> simp_all [startsTerm, isOne, Stop.isAt]

theorem term_sound (h : (term stop s).2.Clean rest) :
    ∃ ts, s.Clean (ts ++ rest) ∧ IsTerm ts ((term stop s).1.map Factor.ofTerm) := by
  cases hp : s.peek? with
  | none =>
    simp only [term, hp] at h
    exact absurd h TokenStream.not_clean_reportMissing
  | some t =>
    simp only [term, hp] at h ⊢
    split
    · next hstop =>
      rw [if_pos hstop] at h
      exact absurd h TokenStream.not_clean_reportMissing
    · next hstop =>
      rw [if_neg hstop] at h
      split
      · next text hl =>
        simp only [hl] at h
        rcases exponent_sound t.span h with ⟨hone, hc⟩ | ⟨ts, hc, he⟩
        · refine ⟨[t], .of_advance hp hc, ?_⟩
          rw [hone]
          exact .bare hl
        · exact ⟨t :: ts, .of_advance hp hc, .power hl he⟩
      · next hname =>
        split at h
        · next text hl => exact absurd hl (hname text)
        · split
          · next hone =>
            rw [if_pos hone] at h
            rw [isOne, Bool.and_eq_true, beq_iff_eq, beq_iff_eq] at hone
            exact ⟨[t], .of_advance hp h, .one hone.1 hone.2⟩
          · next hone =>
            rw [if_neg hone] at h
            exact absurd h TokenStream.not_clean_report

theorem term_of_name {n : String} (hp : s.peek? = some t) (hl : t.lexeme = .name n) :
    term stop s = ([⟨n, (exponent t.span s.advance).1, t.span⟩], (exponent t.span s.advance).2) := by
  have hstop : stop.isAt (.name n) = false := by cases stop <;> rfl
  simp only [term, hp, hl, hstop, Bool.false_eq_true, if_false]

theorem term_of_one (hp : s.peek? = some t) (hl : t.lexeme = .natural 1) (hs : t.span.length = 1) :
    term stop s = ([], s.advance) := by
  have hstop : stop.isAt (.natural 1) = false := by cases stop <;> rfl
  have hone : isOne t = true := by simp [isOne, hl, hs]
  simp only [term, hp, hl, hstop, hone, Bool.false_eq_true, if_false, if_true]

theorem term_complete (stop : Stop) (hc : s.Clean (ts ++ rest)) (h : IsTerm ts e) (hf : Free rest) :
    (term stop s).2.Clean rest ∧ (term stop s).1.map Factor.ofTerm = e := by
  cases h with
  | bare hl =>
    rw [term_of_name hc.peek? hl, exponent_of_free _ hc.advance hf]
    exact ⟨hc.advance, rfl⟩
  | @power t n us k hl he =>
    obtain ⟨hclean, hval⟩ := exponent_complete t.span hc.advance he
    rw [term_of_name hc.peek? hl]
    refine ⟨hclean, ?_⟩
    show [Factor.mk n (exponent t.span s.advance).1.val t.span] = [⟨n, k, t.span⟩]
    rw [hval]
  | one hl hs =>
    rw [term_of_one hc.peek? hl hs]
    exact ⟨hc.advance, rfl⟩

theorem tailTerms_sound (h : (tailTerms stop s).2.Clean rest) :
    ∃ ts, s.Clean (ts ++ rest) ∧ IsTail ts ((tailTerms stop s).1.map Factor.ofTerm) := by
  fun_induction tailTerms stop s with
  | case1 s hp => exact ⟨[], h, .nil⟩
  | case2 s t hp hstop => exact ⟨[], h, .nil⟩
  | case3 s t hp hstop hl first more ih =>
    obtain ⟨us, hus, htail⟩ := ih h
    obtain ⟨ts, hts, hterm⟩ := term_sound hus
    have hread : s.advance.Clean (ts ++ us ++ rest) := by rwa [List.append_assoc]
    refine ⟨t :: ts ++ us, .of_advance hp hread, ?_⟩
    rw [List.map_append]
    exact .product hl hterm htail
  | case4 s t hp hstop hl hstarts first more ih =>
    obtain ⟨us, hus, htail⟩ := ih h
    obtain ⟨ts, hts, hterm⟩ := term_sound hus
    refine ⟨ts ++ us, by rwa [List.append_assoc], ?_⟩
    rw [List.map_append]
    exact .juxtaposed hterm htail
  | case5 s t hp hstop hl hstarts => exact ⟨[], h, .nil⟩

/-- The tokens after a list of terms: none, or what stops it. -/
def Ends (stop : Stop) (rest : List Token) : Prop := ∀ t ∈ rest.head?, stop.isAt t.lexeme = true

theorem ends_nil : Ends stop [] := fun _ ht => absurd ht (Option.not_mem_none _)

theorem Ends.free (h : Ends stop rest) : Free rest := by
  intro t ht
  have := h t ht
  cases stop <;> cases hl : t.lexeme <;> simp_all [Stop.isAt, opensExponent]

theorem tailTerms_of_ends (hc : s.Clean rest) (h : Ends stop rest) : tailTerms stop s = ([], s) := by
  have hp := hc.peek?
  unfold tailTerms
  split
  · rfl
  · next t ht =>
    rw [if_pos (h t (hp ▸ ht))]

theorem tailTerms_of_star (hp : s.peek? = some t) (hl : t.lexeme = .star) :
    tailTerms stop s = ((term stop s.advance).1 ++ (tailTerms stop (term stop s.advance).2).1,
      (tailTerms stop (term stop s.advance).2).2) := by
  have hstop : stop.isAt .star = false := by cases stop <;> rfl
  rw [tailTerms]
  split
  · next hn => rw [hp] at hn; cases hn
  · next u hu =>
    obtain rfl : t = u := Option.some.inj (hp ▸ hu)
    simp only [hl, hstop, Bool.false_eq_true, if_false, if_true]

theorem tailTerms_of_startsTerm (hp : s.peek? = some t) (ht : startsTerm t = true) :
    tailTerms stop s = ((term stop s).1 ++ (tailTerms stop (term stop s).2).1,
      (tailTerms stop (term stop s).2).2) := by
  have hstop := not_isAt_of_startsTerm stop ht
  have hstar : t.lexeme ≠ .star := by
    intro hl
    simp [startsTerm, isOne, hl] at ht
  rw [tailTerms]
  split
  · next hn => rw [hp] at hn; cases hn
  · next u hu =>
    obtain rfl : t = u := Option.some.inj (hp ▸ hu)
    simp only [hstop, hstar, ht, Bool.false_eq_true, if_false, dif_pos]

theorem tailTerms_complete (hc : s.Clean (ts ++ rest)) (h : IsTail ts e) (hr : Ends stop rest) :
    (tailTerms stop s).2.Clean rest ∧ (tailTerms stop s).1.map Factor.ofTerm = e := by
  induction h generalizing s with
  | nil =>
    rw [tailTerms_of_ends hc hr]
    exact ⟨hc, rfl⟩
  | @juxtaposed ts us e f h htail ih =>
    rw [List.append_assoc] at hc
    obtain ⟨hclean, hval⟩ := term_complete stop hc h (htail.free hr.free)
    obtain ⟨hend, hmore⟩ := ih hclean
    obtain ⟨t, vs, rfl, ht⟩ := h.startsTerm
    rw [tailTerms_of_startsTerm hc.peek? ht]
    exact ⟨hend, by rw [List.map_append, hval, hmore]⟩
  | @product m ts us e f hm h htail ih =>
    have hrest : s.advance.Clean (ts ++ (us ++ rest)) := by
      rw [← List.append_assoc]
      exact hc.advance
    obtain ⟨hclean, hval⟩ := term_complete stop hrest h (htail.free hr.free)
    obtain ⟨hend, hmore⟩ := ih hclean
    rw [tailTerms_of_star hc.peek? hm]
    exact ⟨hend, by rw [List.map_append, hval, hmore]⟩

theorem terms_sound (h : (terms stop s).2.Clean rest) :
    ∃ ts, s.Clean (ts ++ rest) ∧ IsTerms? ts ((terms stop s).1.map Factor.ofTerm) := by
  obtain ⟨us, hus, htail⟩ := tailTerms_sound h
  obtain ⟨ts, hts, hterm⟩ := term_sound hus
  refine ⟨ts ++ us, by rwa [List.append_assoc], ?_⟩
  rw [terms, List.map_append]
  exact .some hterm htail

theorem terms_complete {us : List Token} {f : List Factor} (hc : s.Clean (ts ++ us ++ rest)) (h : IsTerm ts e)
    (htail : IsTail us f) (hr : Ends stop rest) :
    (terms stop s).2.Clean rest ∧ (terms stop s).1.map Factor.ofTerm = e ++ f := by
  rw [List.append_assoc] at hc
  obtain ⟨hclean, hval⟩ := term_complete stop hc h (htail.free hr.free)
  obtain ⟨hend, hmore⟩ := tailTerms_complete hclean htail hr
  exact ⟨hend, by rw [terms, List.map_append, hval, hmore]⟩

/-! ### Whole expressions -/

theorem numerator_sound (h : (numerator s).2.Clean rest) :
    ∃ ts, s.Clean (ts ++ rest) ∧ IsTerms? ts ((numerator s).1.map Factor.ofTerm) := by
  unfold numerator at h ⊢
  split
  · next hl =>
    simp only [hl] at h
    exact ⟨[], h, .none⟩
  · next hl =>
    simp only [hl] at h
    exact ⟨[], h, .none⟩
  · next l hslash hl =>
    split at h
    · next hn => rw [hl] at hn; cases hn
    · next hs => exact absurd (Option.some.inj (hl ▸ hs)) hslash
    · exact terms_sound h

theorem numerator_complete (hc : s.Clean (ts ++ rest)) (h : IsTerms? ts e) (hr : Ends .slash rest) :
    (numerator s).2.Clean rest ∧ (numerator s).1.map Factor.ofTerm = e := by
  cases h with
  | none =>
    have hn : numerator s = ([], s) := by
      have hp := hc.peekLexeme?
      cases rest with
      | nil => simp only [numerator, hp, List.append_nil, List.head?_nil, Option.map_none]
      | cons t rest =>
        have ht : t.lexeme = .slash := by
          have := hr t rfl
          rwa [Stop.isAt, beq_self_eq_true, Bool.true_and, beq_iff_eq] at this
        simp only [List.nil_append, List.head?_cons, Option.map_some, ht] at hp
        simp only [numerator, hp]
    rw [hn]
    exact ⟨hc, rfl⟩
  | some h htail =>
    have hn : numerator s = terms .slash s := by
      obtain ⟨t, vs, rfl, ht⟩ := h.startsTerm
      have hslash : t.lexeme ≠ .slash := by
        intro hl
        simp [startsTerm, isOne, hl] at ht
      have hp : s.peekLexeme? = some t.lexeme := hc.peekLexeme?
      unfold numerator
      split
      · next hnone => rw [hp] at hnone; cases hnone
      · next hs => exact absurd (Option.some.inj (hp ▸ hs)) hslash
      · rfl
    rw [hn]
    exact terms_complete hc h htail hr

theorem denominator_sound (h : (denominator s).2.Clean rest) :
    ∃ ts, s.Clean (ts ++ rest) ∧ IsTerms? ts ((denominator s).1.map Factor.ofTerm) := by
  unfold denominator at h ⊢
  split
  · next hend =>
    rw [if_pos hend] at h
    exact ⟨[], h, .none⟩
  · next hend =>
    rw [if_neg hend] at h
    exact terms_sound h

theorem denominator_complete (hc : s.Clean ts) (h : IsTerms? ts e) :
    (denominator s).2.Clean [] ∧ (denominator s).1.map Factor.ofTerm = e := by
  cases h with
  | none =>
    rw [denominator, hc.isAtEnd]
    exact ⟨hc, rfl⟩
  | @some ts us e f h htail =>
    have hd : denominator s = terms .never s := by
      obtain ⟨t, vs, rfl, ht⟩ := h.startsTerm
      rw [denominator, hc.isAtEnd]
      rfl
    rw [hd]
    exact terms_complete (by rwa [List.append_nil]) h htail ends_nil

theorem map_ofTerm_reciprocal {e : Expression} (h : Bounded (e.map Factor.ofTerm)) :
    e.reciprocal.map Factor.ofTerm = (e.map Factor.ofTerm).map Factor.inverse := by
  rw [Expression.reciprocal, List.map_map, List.map_map]
  refine List.map_congr_left fun t ht => ?_
  obtain ⟨hl, hu⟩ := h _ (List.mem_map_of_mem ht)
  show Factor.mk t.name (-t.exponent).val t.span = ⟨t.name, -t.exponent.val, t.span⟩
  rw [val_neg_of_bounds hu hl]

theorem fraction_sound (h : (fraction s).2.Clean rest) :
    ∃ ts, s.Clean (ts ++ rest) ∧ IsUnits ts ((fraction s).1.map Factor.ofTerm) := by
  unfold fraction at h ⊢
  dsimp only at h ⊢
  split
  · next hslash =>
    rw [if_pos hslash] at h
    obtain ⟨us, hus, hbelow⟩ := denominator_sound h
    rcases TokenStream.skip_sound hus with ⟨-, m, hm, hc⟩ | ⟨hno, -⟩
    · obtain ⟨ts, hts, habove⟩ := numerator_sound hc
      refine ⟨ts ++ m :: us, by rwa [List.append_assoc], ?_⟩
      rw [List.map_append, map_ofTerm_reciprocal hbelow.bounded]
      exact .fraction habove hm hbelow
    · rw [hslash] at hno
      cases hno
  · next hslash =>
    rw [if_neg hslash] at h
    obtain ⟨ts, hts, habove⟩ := numerator_sound h
    exact ⟨ts, hts, .whole habove⟩

theorem fraction_complete (hc : s.Clean ts) (h : IsUnits ts e) :
    (fraction s).2.Clean [] ∧ (fraction s).1.map Factor.ofTerm = e := by
  cases h with
  | whole h =>
    obtain ⟨hclean, hval⟩ := numerator_complete (by rwa [List.append_nil]) h ends_nil
    have hskip := TokenStream.skip_of_not_head .slash hclean fun _ ht => absurd ht (Option.not_mem_none _)
    simp only [fraction, hskip, Bool.false_eq_true, if_false]
    exact ⟨hclean, hval⟩
  | @fraction m ts us e f h hm hb =>
    have hends : Ends .slash (m :: us) := by
      intro t ht
      obtain rfl : m = t := Option.some.inj ht
      rw [hm]
      rfl
    obtain ⟨hclean, hval⟩ := numerator_complete hc h hends
    have hskip : (numerator s).2.skip .slash = (true, (numerator s).2.advance) := hm ▸ TokenStream.skip_of_head hclean
    obtain ⟨hend, hbelow⟩ := denominator_complete hclean.advance hb
    simp only [fraction, hskip, if_true]
    refine ⟨hend, ?_⟩
    rw [List.map_append, map_ofTerm_reciprocal (hbelow ▸ hb.bounded), hval, hbelow]

theorem units_sound (h : (units s).2.problems = []) :
    ∃ ts, s.Clean ts ∧ IsUnits ts ((units s).1.map Factor.ofTerm) := by
  unfold units at h ⊢
  dsimp only at h ⊢
  split
  · next hend =>
    rw [if_pos hend] at h
    have hclean : (fraction s).2.Clean [] := by
      refine ⟨?_, h⟩
      rw [h, List.isEmpty_nil, Bool.not_true, Bool.or_false] at hend
      exact List.isEmpty_iff.mp hend
    obtain ⟨ts, hts, hu⟩ := fraction_sound hclean
    exact ⟨ts, by rwa [List.append_nil] at hts, hu⟩
  · next hend =>
    rw [if_neg hend] at h
    have hclean : (TokenStream.reportMissing _ .endOfSourceRequired).Clean _ := ⟨rfl, h⟩
    exact absurd hclean TokenStream.not_clean_reportMissing

theorem units_complete (hc : s.Clean ts) (h : IsUnits ts e) :
    (units s).2.problems = [] ∧ (units s).1.map Factor.ofTerm = e := by
  obtain ⟨hclean, hval⟩ := fraction_complete hc h
  have hu : units s = fraction s := by
    have hend : (fraction s).2.isAtEnd = true := hclean.isAtEnd
    simp only [units, hend, Bool.true_or, if_true]
  rw [hu]
  exact ⟨hclean.problems, hval⟩

/-- A token list has one meaning at most. -/
theorem meaning_unique {f : List Factor} (h : IsUnits ts e) (h' : IsUnits ts f) : e = f := by
  have hc := TokenStream.clean_ofTokens () ts
  rw [← (units_complete hc h).2, (units_complete hc h').2]

end Grammar

namespace Parse

open Grammar

/-- What is parsed without problems is derived. -/
theorem isUnits_ofTokens {tokens : List Token} (h : (ofTokens tokens).problems = []) :
    IsUnits tokens ((ofTokens tokens).expression.map Factor.ofTerm) := by
  obtain ⟨ts, hclean, hunits⟩ := units_sound h
  obtain rfl : tokens = ts := hclean.remaining
  exact hunits

/-- **The parser accepts exactly the derivable token lists and returns their meaning.** -/
theorem accepts_exactly (tokens : List Token) :
    ((ofTokens tokens).problems = [] ↔ ∃ e, IsUnits tokens e) ∧
    ∀ e, IsUnits tokens e → (ofTokens tokens).expression.map Factor.ofTerm = e := by
  have hc := TokenStream.clean_ofTokens () tokens
  refine ⟨⟨fun h => ?_, fun ⟨e, he⟩ => (units_complete hc he).1⟩,
    fun e he => (units_complete hc he).2⟩
  obtain ⟨ts, hts, hu⟩ := units_sound h
  obtain rfl : tokens = ts := hts.remaining
  exact ⟨_, hu⟩

end Parse
end Dimensional
