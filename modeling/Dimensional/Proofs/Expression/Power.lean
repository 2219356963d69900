import Dimensional.Proofs.Expression.Acceptance
import Dimensional.Proofs.Expression.Scanning

/-!
# Written powers

A name with an exponent behind it, written with a caret or in superscripts (`Script.write`), is one term of the grammar
wherever it stands in a text (`isTerm_power`). What is read of a numeral is `Numeral.reading`: the magnitude is brought
into the range of exponents before the sign is put in front of it, so `-Exponent.greatest` is the least integer read.

The main statement is `power_read`: a text that consists of one written power is parsed without problems to one term.
-/

namespace Dimensional

/-! ### Factors -/

namespace Factor

def power (f : Factor) : String × Int := (f.name, f.exponent)

def term (f : Factor) : Term := ⟨f.name, .ofInt f.exponent, f.span⟩

theorem term_ofTerm (t : Term) : (ofTerm t).term = t := by
  simp only [term, ofTerm, Exponent.ofInt_val]

end Factor

/-! ### Numerals -/

/-- A sign and a digit run. -/
structure Numeral where
  negative : Bool
  digits : DigitRun

namespace Numeral

def value (n : Numeral) : Int :=
  if n.negative then -(n.digits.value : Int) else n.digits.value

/-- The integer that is read: the nearest one that is an exponent and whose negation is one. -/
def reading (n : Numeral) : Int :=
  max (-Exponent.greatest) (min Exponent.greatest n.value)

def ofInt (k : Int) : Numeral :=
  ⟨decide (k < 0), .ofNat k.natAbs⟩

theorem value_ofInt (k : Int) : (ofInt k).value = k := by
  simp only [value, ofInt, DigitRun.value_ofNat, decide_eq_true_eq]
  split <;> omega

theorem reading_eq (n : Numeral) :
    n.reading = if n.negative then -Grammar.magnitude n.digits.value else Grammar.magnitude n.digits.value := by
  simp only [reading, value, Grammar.magnitude, Exponent.greatest]
  split <;> omega

/-- Integers are read as they are written, down to the negation of the greatest exponent. -/
theorem reading_eq_value {n : Numeral} (hl : -Exponent.greatest ≤ n.value) (hu : n.value ≤ Exponent.greatest) :
    n.reading = n.value := by
  simp only [reading]
  omega

/-- Every exponent but the least one is read as it is written. -/
theorem reading_ofInt {k : Exponent} (hk : k.val ≠ Exponent.least) : (ofInt k.val).reading = k.val := by
  have hl : -Exponent.greatest ≤ k.val := by
    have := k.lower
    simp only [Exponent.least, Exponent.greatest] at *
    omega
  rw [reading_eq_value] <;> rw [value_ofInt]
  · exact hl
  · exact k.upper

end Numeral

/-! ### Scripts -/

/-- The ways to write an exponent behind a name. -/
inductive Script where
  | caret
  | superscript
deriving DecidableEq

def Script.write : Script → Numeral → List Char
  | .caret, n => '^' :: ((if n.negative then ['-'] else []) ++ n.digits.chars)
  | .superscript, n =>
    (if n.negative then [Superscript.minus] else []) ++ n.digits.chars.map Superscript.raise

theorem toList_superscript (k : Int) : (Superscript.ofInt k).toList = Script.superscript.write (.ofInt k) := by
  simp only [Superscript.ofInt, String.toList_ofList, Script.write, Numeral.ofInt, DigitRun.ofNat,
    decide_eq_true_eq]

namespace Grammar

variable {name : String}

theorem magnitude_min_greatestNatural (n : Nat) : magnitude (min n greatestNatural) = magnitude n := by
  simp only [magnitude, greatestNatural, Exponent.greatest]
  omega

theorem isInteger_scanFrom {sign : Char} {signLexeme : Lexeme} (digits : Nat → Lexeme) {run : List Char}
    {n width : Nat} (negative : Bool) (hsign : Lexeme.ofSymbol? sign = some signLexeme)
    (hrun : ∀ p, scanFrom p run = [⟨digits (min n greatestNatural), p, p + width⟩]) (position : Nat) :
    IsInteger signLexeme digits (scanFrom position ((if negative then [sign] else []) ++ run))
      (if negative then -magnitude n else magnitude n) := by
  -- the scanner stops at its own bound, which is above the range of exponents
  rw [← magnitude_min_greatestNatural n]
  cases negative with
  | false =>
    show IsInteger signLexeme digits (scanFrom position run) (magnitude (min n greatestNatural))
    rw [hrun]
    exact .plain rfl
  | true =>
    show IsInteger signLexeme digits (scanFrom position ([sign] ++ run)) (-magnitude (min n greatestNatural))
    rw [List.singleton_append, scanFrom_cons_symbol hsign, hrun]
    exact .negated rfl rfl

/-- **A written exponent is read as the nearest integer** between the greatest exponent and its negation. -/
theorem isExponent_write (s : Script) (n : Numeral) (position : Nat) :
    IsExponent (scanFrom position (s.write n)) n.reading := by
  rw [n.reading_eq]
  cases s with
  | caret =>
    have hcaret : Lexeme.ofSymbol? '^' = some .caret := rfl
    have hminus : Lexeme.ofSymbol? '-' = some .minus := rfl
    have hint := isInteger_scanFrom .natural n.negative hminus (scanFrom_digits n.digits) (position + 1)
    show IsExponent (scanFrom position ('^' :: _)) _
    rw [scanFrom_cons_symbol hcaret]
    exact .caret rfl hint
  | superscript =>
    have hminus : Lexeme.ofSymbol? Superscript.minus = some .superscriptMinus := rfl
    exact .superscript (isInteger_scanFrom .superscript n.negative hminus (scanFrom_raised n.digits) position)

/-- No exponent begins with a character of a name. -/
theorem parted_write (h : IsName name) (s : Script) (n : Numeral) : Parted name.toList (s.write n) := by
  refine h.isRun.parted fun y hy => ?_
  cases s with
  | caret =>
    obtain rfl : '^' = y := Option.some.inj hy
    decide
  | superscript =>
    obtain ⟨negative, digits⟩ := n
    cases negative with
    | true =>
      obtain rfl : Superscript.minus = y := Option.some.inj hy
      decide
    | false =>
      have hclass := (isRun_raised digits).classOf y (List.mem_of_head? hy)
      simp [hclass]

theorem isTerm_name (h : IsName name) (position : Nat) :
    IsTerm (scanFrom position name.toList) [⟨name, 1, ⟨position, position + name.length⟩⟩] := by
  rw [scanFrom_name h]
  exact .bare rfl

/-- **A name with a written exponent is a term.** -/
theorem isTerm_power (h : IsName name) (s : Script) (n : Numeral) (position : Nat) :
    IsTerm (scanFrom position (name.toList ++ s.write n))
      [⟨name, n.reading, ⟨position, position + name.length⟩⟩] := by
  rw [scanFrom_append (parted_write h s n), scanFrom_name h]
  exact .power rfl (isExponent_write s n _)

/-! ### Powers with blanks between them -/

/-- A text that is a power of a name, wherever it stands. -/
def IsPowerText (text : List Char) (power : String × Int) : Prop :=
  ∀ position, IsTerm (scanFrom position text) [⟨power.1, power.2, ⟨position, position + power.1.length⟩⟩]

theorem isPowerText_name (h : IsName name) : IsPowerText name.toList (name, 1) := isTerm_name h

theorem isPowerText_write (h : IsName name) (s : Script) (n : Numeral) :
    IsPowerText (name.toList ++ s.write n) (name, n.reading) := isTerm_power h s n

/-- The text of a power that leaves out the exponent 1. -/
theorem isPowerText_of_script {p : String × Exponent} (s : Script) {text : String} (hn : IsName p.1)
    (he : p.2.val ≠ Exponent.least)
    (htext : text.toList = if p.2 = 1 then p.1.toList else p.1.toList ++ s.write (.ofInt p.2.val)) :
    IsPowerText text.toList (p.1, p.2.val) := by
  rw [htext]
  split
  · next hone =>
    rw [hone]
    exact isPowerText_name hn
  · have hpower := isPowerText_write hn s (.ofInt p.2.val)
    rwa [Numeral.reading_ofInt he] at hpower

section Spaced

variable {α : Type} {text : α → List Char} {power : α → String × Int} {l : List α}

theorem opensGap_spaced : OpensGap (l.flatMap fun a => ' ' :: text a) := by
  cases l with
  | nil => exact fun y hy => absurd hy (Option.not_mem_none y)
  | cons a l => exact opensGap_blank rfl

/-- Powers with a blank in front of each are the end of a list of terms. -/
theorem isTail_spaced (h : ∀ a ∈ l, IsPowerText (text a) (power a)) (position : Nat) :
    ∃ f, IsTail (scanFrom position (l.flatMap fun a => ' ' :: text a)) f ∧ f.map Factor.power = l.map power := by
  induction l generalizing position with
  | nil => exact ⟨[], scanFrom_nil position ▸ .nil, rfl⟩
  | cons a l ih =>
    have ha : IsPowerText (text a) (power a) := h a (by simp)
    have hspace : isBlank ' ' = true := rfl
    have htext : ((a :: l).flatMap fun b => ' ' :: text b) =
        ' ' :: (text a ++ l.flatMap fun b => ' ' :: text b) := by simp
    obtain ⟨f, hf, hpowers⟩ := ih (fun b hb => h b (List.mem_cons_of_mem _ hb)) (position + 1 + (text a).length)
    -- the blank gives no token, and neither side of it runs on over it
    rw [htext, scanFrom_cons_blank hspace, scanFrom_append (opensGap_spaced.parted _)]
    refine ⟨_, .juxtaposed (ha _) hf, ?_⟩
    rw [List.map_append, hpowers]
    rfl

theorem intercalate_cons (front : List Char) (texts : List (List Char)) :
    [' '].intercalate (front :: texts) = front ++ texts.flatMap (' ' :: ·) := by
  induction texts generalizing front with
  | nil => simp
  | cons t texts ih => rw [List.intercalate_cons_cons, ih, List.flatMap_cons]; simp

/-- **Powers with blanks between them are a list of terms.** -/
theorem isTerms?_spaced (h : ∀ a ∈ l, IsPowerText (text a) (power a)) (position : Nat) :
    ∃ f, IsTerms? (scanFrom position ([' '].intercalate (l.map text))) f ∧ f.map Factor.power = l.map power := by
  cases l with
  | nil => exact ⟨[], scanFrom_nil position ▸ .none, rfl⟩
  | cons a l =>
    have ha : IsPowerText (text a) (power a) := h a (by simp)
    obtain ⟨f, hf, hpowers⟩ :=
      isTail_spaced (fun b hb => h b (List.mem_cons_of_mem _ hb)) (position + (text a).length)
    rw [List.map_cons, intercalate_cons, List.flatMap_map, scanFrom_append (opensGap_spaced.parted _)]
    refine ⟨_, .some (ha _) hf, ?_⟩
    rw [List.map_append, hpowers]
    rfl

end Spaced

end Grammar

/-! ### Parsing -/

namespace Parse

open Grammar

/-- A derivable token list is parsed without problems to its meaning. -/
theorem ofTokens_of_isUnits {tokens : List Token} {e : List Factor} (h : IsUnits tokens e) :
    ofTokens tokens = ⟨e.map Factor.term, []⟩ := by
  obtain ⟨hclean, hval⟩ := units_complete (TokenStream.clean_ofTokens () tokens) h
  have hexpr : (ofTokens tokens).expression = e.map Factor.term := by
    rw [← hval, List.map_map]
    exact (List.map_id'' (fun t => Factor.term_ofTerm t) _).symm
  show Parse.mk (ofTokens tokens).expression (ofTokens tokens).problems = _
  rw [hexpr]
  exact congrArg _ hclean

variable {name : String}

theorem ofSource_of_isTerm {source : String} {f : List Factor} (h : IsTerm (scanFrom 0 source.toList) f) :
    ofSource source = ⟨f.map Factor.term, []⟩ := by
  have hunits := IsUnits.whole (.some h .nil)
  simp only [List.append_nil] at hunits
  rw [ofSource, scan_eq_scanFrom, ofTokens_of_isUnits hunits]

theorem ofSource_name (h : IsName name) : ofSource name = ⟨[⟨name, 1, ⟨0, name.length⟩⟩], []⟩ := by
  rw [ofSource_of_isTerm (isTerm_name h 0), Nat.zero_add]
  rfl

theorem ofSource_power (h : IsName name) (s : Script) (n : Numeral) :
    ofSource (name ++ String.ofList (s.write n)) = ⟨[⟨name, .ofInt n.reading, ⟨0, name.length⟩⟩], []⟩ := by
  have hterm := isTerm_power h s n 0
  rw [← String.toList_ofList (l := s.write n), ← String.toList_append] at hterm
  rw [ofSource_of_isTerm hterm, Nat.zero_add]
  rfl

/-- **Written exponents are read as the nearest integers between the greatest exponent and its negation**, in both
scripts. This is the nearest exponent unless the written integer is below that, so every exponent but the least one is
read back from its superscripts. -/
theorem power_read (h : IsName name) :
    (∀ (s : Script) (n : Numeral),
      ofSource (name ++ String.ofList (s.write n)) = ⟨[⟨name, .ofInt n.reading, ⟨0, name.length⟩⟩], []⟩ ∧
      (Exponent.ofInt n.reading = .ofInt n.value ↔ -Exponent.greatest ≤ n.value)) ∧
    ∀ k : Exponent, k.val ≠ Exponent.least →
      ofSource (name ++ Superscript.ofInt k.val) = ⟨[⟨name, k, ⟨0, name.length⟩⟩], []⟩ := by
  refine ⟨fun s n => ⟨ofSource_power h s n, ?_⟩, fun k hk => ?_⟩
  · rw [Exponent.ext_iff]
    simp only [Exponent.ofInt, Numeral.reading, Exponent.least, Exponent.greatest]
    omega
  · have hread := ofSource_power h .superscript (.ofInt k.val)
    rw [Numeral.reading_ofInt hk, Exponent.ofInt_val, ← toList_superscript, String.ofList_toList] at hread
    exact hread

/-- Leading zeros do not count, and the least exponent that is read back is the second one. -/
theorem power_read_metre :
    IsName "m" ∧ ofSource "m⁻⁰⁰¹²" = ⟨[⟨"m", -12, ⟨0, 1⟩⟩], []⟩ ∧
      (-9223372036854775807 : Exponent).val ≠ Exponent.least ∧
      ofSource "m⁻⁹²²³³⁷²⁰³⁶⁸⁵⁴⁷⁷⁵⁸⁰⁷" = ⟨[⟨"m", -9223372036854775807, ⟨0, 1⟩⟩], []⟩ := by
  have hm : IsName "m" := .of_all (by decide) (by decide)
  have hval : (-9223372036854775807 : Exponent).val = -9223372036854775807 := rfl
  have hk : (-9223372036854775807 : Exponent).val ≠ Exponent.least := by decide
  have htext : "m" ++ Superscript.ofInt (-9223372036854775807) = "m⁻⁹²²³³⁷²⁰³⁶⁸⁵⁴⁷⁷⁵⁸⁰⁷" := rfl
  have hread := (power_read hm).2 (-9223372036854775807) hk
  rw [hval, htext] at hread
  refine ⟨hm, ?_, hk, hread⟩
  exact ((power_read hm).1 .superscript ⟨true, ['0', '0', '1', '2'], by decide, List.all_eq_true.mp rfl⟩).1

/-- The superscripts of the least exponent are read as its successor. -/
theorem least_exponent_misread :
    ofSource ("m" ++ Superscript.ofInt Exponent.least) = ⟨[⟨"m", .ofInt (-Exponent.greatest), ⟨0, 1⟩⟩], []⟩ ∧
      Exponent.ofInt (-Exponent.greatest) ≠ .ofInt Exponent.least := by
  have hm : IsName "m" := .of_all (by decide) (by decide)
  refine ⟨?_, by decide⟩
  have hread := ofSource_power hm .superscript (.ofInt Exponent.least)
  rw [← toList_superscript, String.ofList_toList] at hread
  rw [hread, Numeral.reading, Numeral.value_ofInt]
  rfl

end Parse
end Dimensional
