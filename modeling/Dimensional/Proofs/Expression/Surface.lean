import Dimensional.Proofs.Expression.Progress
import Dimensional.Proofs.Expression.Tokenization
import Dimensional.Proofs.Text.Digits

/-!
# What is written and what is shown

A token is shown by its surface, which is made of what the token says and not taken from the source. ASCII digits get
back the zeros in front of them from the length of the span, superscript digits do not; a run above `greatestNatural` is
shown as that number. All other tokens are shown as they are written (`Recoverable`).

The main statement is `shown_as_written`: for which tokens the surface is the text, and that a report about an unexpected
token and the term that stands in for it show this surface.
-/

namespace Dimensional

variable {source : String} {cs : List Char} {c e : Char} {l : Lexeme} {t : Token} {d : DigitRun}

/-! ### Digits and numbers -/

/-- Digits without zeros in front. -/
def DigitRun.Trimmed (d : DigitRun) : Prop := d.chars.head? = some '0' → d.chars = ['0']

/-- Digits behind the digits of a number that is not 0. -/
theorem toDigits_ofDigitChars_of_pos {n : Nat} (hn : 0 < n) (hd : ∀ c ∈ cs, c.isDigit = true) :
    Nat.toDigits 10 (Nat.ofDigitChars 10 cs n) = Nat.toDigits 10 n ++ cs := by
  induction cs generalizing n with
  | nil => simp
  | cons c cs ih =>
    obtain ⟨hc, hcs⟩ := List.forall_mem_cons.mp hd
    obtain ⟨k, hk, rfl⟩ := exists_digitChar hc
    rw [Nat.ofDigitChars_cons_digitChar_of_lt_ten hk, ih (by omega) hcs,
      ← Nat.toDigits_append_toDigits (by omega) hn hk, Nat.toDigits_of_lt_base hk, List.append_assoc,
      List.singleton_append]

theorem toDigits_ofDigitChars (hd : ∀ e ∈ c :: cs, e.isDigit = true) (hz : c ≠ '0') :
    Nat.toDigits 10 (Nat.ofDigitChars 10 (c :: cs) 0) = c :: cs := by
  obtain ⟨hc, hcs⟩ := List.forall_mem_cons.mp hd
  obtain ⟨k, hk, rfl⟩ := exists_digitChar hc
  have hpos : 0 < k := by
    apply Nat.pos_of_ne_zero
    rintro rfl
    exact hz rfl
  rw [Nat.ofDigitChars_cons_digitChar_of_lt_ten hk, Nat.mul_zero, Nat.zero_add,
    toDigits_ofDigitChars_of_pos hpos hcs, Nat.toDigits_of_lt_base hk, List.singleton_append]

theorem DigitRun.toDigits_value_iff : Nat.toDigits 10 d.value = d.chars ↔ d.Trimmed := by
  constructor
  · intro h hz
    rw [← h] at hz ⊢
    rw [head?_toDigits hz]
    rfl
  · intro h
    obtain ⟨c, cs, hcs⟩ := List.exists_cons_of_ne_nil d.ne_nil
    by_cases hz : c = '0'
    · have hone := h (by rw [hcs, hz]; rfl)
      rw [value, hone]
      rfl
    · have hd := d.digits
      rw [hcs] at hd
      rw [value, hcs]
      exact toDigits_ofDigitChars hd hz

theorem value_paddedDigits (width n : Nat) : Nat.ofDigitChars 10 (paddedDigits width n) 0 = n := by
  rw [paddedDigits, Nat.ofDigitChars_append, Nat.ofDigitChars_replicate_zero, Nat.mul_zero,
    Nat.ofDigitChars_ten_toDigits]

/-- A digit run is its number filled up with zeros. -/
theorem paddedDigits_ofDigitChars (hne : cs ≠ []) (hd : ∀ c ∈ cs, c.isDigit = true) :
    paddedDigits cs.length (Nat.ofDigitChars 10 cs 0) = cs := by
  induction cs with
  | nil => exact absurd rfl hne
  | cons c rest ih =>
    by_cases hc : c = '0'
    · subst hc
      cases rest with
      | nil => decide
      | cons e es =>
        have hrest := ih (List.cons_ne_nil e es) fun c hc => hd c (List.mem_cons_of_mem _ hc)
        have hvalue : Nat.ofDigitChars 10 ('0' :: e :: es) 0 = Nat.ofDigitChars 10 (e :: es) 0 := by
          rw [Nat.ofDigitChars_cons]
          rfl
        have hlength := congrArg List.length hrest
        rw [hvalue]
        simp only [paddedDigits, List.length_append, List.length_replicate] at hrest hlength ⊢
        have hone : ('0' :: e :: es).length - (Nat.toDigits 10 (Nat.ofDigitChars 10 (e :: es) 0)).length =
            (e :: es).length - (Nat.toDigits 10 (Nat.ofDigitChars 10 (e :: es) 0)).length + 1 := by
          rw [List.length_cons]
          omega
        rw [hone, List.replicate_succ, List.cons_append, hrest]
    · simp only [paddedDigits, toDigits_ofDigitChars hd hc, Nat.sub_self, List.replicate_zero, List.nil_append]

/-! ### Texts that are shown as they are written -/

/-- No number that is too great, and no zeros in front of superscript digits. -/
structure Recoverable (cs : List Char) : Prop where
  digits : ∀ d : DigitRun, cs = d.chars → d.value ≤ greatestNatural
  raised : ∀ d : DigitRun, cs = d.chars.map Superscript.raise → d.value ≤ greatestNatural ∧ d.Trimmed

theorem IsRun.class_eq {k k' : CharClass} (h : IsRun k cs) (h' : IsRun k' cs) : k = k' := by
  obtain ⟨c, cs, rfl⟩ := List.exists_cons_of_ne_nil h.ne_nil
  exact (h.classOf c List.mem_cons_self).symm.trans (h'.classOf c List.mem_cons_self)

/-- Texts other than digit runs are recoverable. -/
theorem recoverable_of_isRun {k : CharClass} (h : IsRun k cs) (hd : k ≠ .digit) (hs : k ≠ .superscriptDigit) :
    Recoverable cs := by
  constructor
  · rintro d rfl
    exact absurd (h.class_eq (isRun_digits d)) hd
  · rintro d rfl
    exact absurd (h.class_eq (isRun_raised d)) hs

theorem recoverable_digits_iff : Recoverable d.chars ↔ d.value ≤ greatestNatural := by
  constructor
  · intro h
    exact h.digits d rfl
  · intro h
    refine ⟨fun d' hd' => ?_, fun d' hd' => ?_⟩
    · rwa [DigitRun.value, ← hd']
    · have hrun := isRun_digits d
      rw [hd'] at hrun
      exact absurd (hrun.class_eq (isRun_raised d')) (by decide)

/-- The digit of a raised one. -/
def lower (c : Char) : Char := ((Superscript.digit? c).map Nat.digitChar).getD c

theorem map_lower_map_raise (h : ∀ c ∈ cs, c.isDigit = true) : (cs.map Superscript.raise).map lower = cs := by
  rw [List.map_map]
  refine (List.map_congr_left fun c hc => ?_).trans (List.map_id cs)
  obtain ⟨k, hk, rfl⟩ := exists_digitChar (h c hc)
  simp [lower, Superscript.digit?_raise_digitChar hk]

theorem DigitRun.chars_eq_of_raised {d' : DigitRun}
    (h : d.chars.map Superscript.raise = d'.chars.map Superscript.raise) : d.chars = d'.chars := by
  rw [← map_lower_map_raise d.digits, h, map_lower_map_raise d'.digits]

theorem recoverable_raised_iff :
    Recoverable (d.chars.map Superscript.raise) ↔ d.value ≤ greatestNatural ∧ d.Trimmed := by
  constructor
  · intro h
    exact h.raised d rfl
  · intro h
    refine ⟨fun d' hd' => ?_, fun d' hd' => ?_⟩
    · have hrun := isRun_raised d
      rw [hd'] at hrun
      exact absurd (hrun.class_eq (isRun_digits d')) (by decide)
    · have heq := DigitRun.chars_eq_of_raised hd'
      rwa [DigitRun.value, DigitRun.Trimmed, ← heq]

/-! ### Surfaces -/

theorem surface_natural_iff {span : Span} (hlength : span.length = d.chars.length) :
    (Token.mk (.natural (min d.value greatestNatural)) span).surface.toList = d.chars ↔
      d.value ≤ greatestNatural := by
  simp only [Token.surface, String.toList_ofList, hlength]
  constructor
  · intro h
    have hvalue : _ = d.value := congrArg (fun cs => Nat.ofDigitChars 10 cs 0) h
    rw [value_paddedDigits] at hvalue
    omega
  · intro h
    rw [Nat.min_eq_left h]
    exact paddedDigits_ofDigitChars d.ne_nil d.digits

theorem surface_superscript_iff {span : Span} :
    (Token.mk (.superscript (min d.value greatestNatural)) span).surface.toList = d.chars.map Superscript.raise ↔
      d.value ≤ greatestNatural ∧ d.Trimmed := by
  simp only [Token.surface, Superscript.ofNat, String.toList_ofList]
  constructor
  · intro h
    have hchars : (DigitRun.ofNat (min d.value greatestNatural)).chars = d.chars := DigitRun.chars_eq_of_raised h
    have hvalue : _ = d.value := congrArg (fun cs => Nat.ofDigitChars 10 cs 0) hchars
    change (DigitRun.ofNat _).value = _ at hvalue
    rw [DigitRun.value_ofNat] at hvalue
    refine ⟨by omega, DigitRun.toDigits_value_iff.mp ?_⟩
    rwa [hvalue] at hchars
  · rintro ⟨hle, htrimmed⟩
    rw [Nat.min_eq_left hle, DigitRun.toDigits_value_iff.mpr htrimmed]

/-- **A surface is the text exactly if the text is recoverable.** -/
theorem Lexeme.Reads.surface_iff (h : l.Reads cs) {span : Span} (hlength : span.length = cs.length) :
    (Token.mk l span).surface.toList = cs ↔ Recoverable cs := by
  have hrun := h.isRun
  cases h with
  | name =>
    refine iff_of_true ?_ (recoverable_of_isRun (k := .identifier) hrun (by decide) (by decide))
    exact String.toList_ofList
  | natural d => rw [surface_natural_iff hlength, recoverable_digits_iff]
  | superscript d => rw [surface_superscript_iff, recoverable_raised_iff]
  | _ =>
    refine iff_of_true ?_ (recoverable_of_isRun (k := .symbol) hrun (by decide) (by decide))
    simp only [Token.surface]
    decide

theorem surface_iff_of_mem_scan (ht : t ∈ scan source) :
    t.surface.toList = t.span.slice source.toList ↔ Recoverable (t.span.slice source.toList) := by
  have h := tokenizes_scan source
  exact (h.reads t ht).surface_iff (length_slice (h.within t ht)).symm

/-! ### What is shown of a source -/

namespace Parse

open Grammar

theorem toList_of_reads_name {n : String} (h : (Lexeme.name n).Reads cs) : n.toList = cs := by
  cases h
  exact String.toList_ofList

theorem exists_term_of_mem {x : String × Span} {e : Expression} (h : x ∈ e.map Term.mention) :
    ∃ u ∈ e, u.name = x.1 ∧ u.span = x.2 := by
  obtain ⟨u, hu, rfl⟩ := List.mem_map.mp h
  exact ⟨u, hu, rfl, rfl⟩

/-- **Tokens are shown as they are written where the text can be recovered.** -/
theorem shown_as_written (source : String) :
    (∀ t ∈ scan source,
      (t.surface.toList = t.span.slice source.toList ↔ Recoverable (t.span.slice source.toList))) ∧
    (∀ p ∈ (ofSource source).problems, p.id = .unexpectedToken → ∃ text, p.detail = .token text ∧
      (text.toList = p.span.slice source.toList ↔ Recoverable (p.span.slice source.toList)) ∧
      ∃ u ∈ (ofSource source).expression, u.name = "(" ++ text ++ ")" ∧ u.span = p.span) ∧
    ∀ u ∈ (ofSource source).expression, u.name.toList = u.span.slice source.toList ∨
      ∃ p ∈ (ofSource source).problems, p.id = .unexpectedToken ∧ p.span = u.span ∧
        ∃ text, p.detail = .token text ∧ u.name = "(" ++ text ++ ")" := by
  have haccounted := accounted (scan source)
  refine ⟨fun t ht => surface_iff_of_mem_scan ht, fun p hp hid => ?_, fun u hu => ?_⟩
  · cases problems_at (scan source) p hp with
    | missing _ hne => exact absurd hid hne
    | @unexpected t ht =>
      refine ⟨t.surface, rfl, surface_iff_of_mem_scan ht, ?_⟩
      exact exists_term_of_mem ((haccounted t.placeholder).mpr (.inr ⟨t, hp, rfl⟩))
  · have htokens := tokenizes_scan source
    rcases (haccounted u.mention).mp (List.mem_map_of_mem hu) with ⟨t, ht, hl, hspan⟩ | ⟨t, hp, hplace⟩
    · have hreads := htokens.reads t (consumed_subset _ ht)
      rw [hl, hspan] at hreads
      exact .inl (toList_of_reads_name hreads)
    · have hname : _ = u.name := congrArg Prod.fst hplace
      have hspan : _ = u.span := congrArg Prod.snd hplace
      exact .inr ⟨t.unexpected, hp, rfl, hspan, t.surface, rfl, hname.symm⟩

/-- A superscript zero in front is not shown. -/
theorem superscript_zero_not_shown : ∃ t ∈ scan "⁰¹", t.surface.toList ≠ t.span.slice "⁰¹".toList := by
  decide +kernel

end Parse
end Dimensional
