import Dimensional.Proofs.Expression.Power
import Dimensional.Proofs.Resolution.Place

/-!
# Ways of writing an expression

The same product of powers can be written in many ways: an exponent with a caret or in superscripts, with zeros in front,
or not at all if it is 1; factors with blanks or a star between them; a denominator behind a slash. `IsFactorText`,
`IsProductText` and `IsFractionText` say which texts write what.

A text is scanned part by part: no run of characters crosses from a factor to what separates it from the next one
(`OpensGap.parted`), so that every such text is derived by the grammar (`isUnits_text`). The main statement is
`writings_agree`: all texts for the same factors are read as these factors and resolve to the same units.
-/

namespace Dimensional

/-- What a factor of a product says: the number 1, or a power of a name. -/
inductive SurfaceFactor where
  | one
  | power (name : String) (exponent : Int)
deriving DecidableEq

def SurfaceFactor.powers (fs : List SurfaceFactor) : List (String × Int) :=
  fs.filterMap fun f =>
    match f with
    | .one => none
    | .power name exponent => some (name, exponent)

theorem SurfaceFactor.powers_cons (f : SurfaceFactor) (fs : List SurfaceFactor) :
    powers (f :: fs) = powers [f] ++ powers fs := by
  cases f <;> rfl

namespace Grammar

/-! ### Texts -/

def AllBlank (cs : List Char) : Prop := ∀ c ∈ cs, isBlank c = true

/-- The texts of a factor. Exponents are integers whose negations are exponents, too. -/
inductive IsFactorText : SurfaceFactor → List Char → Prop
  | one : IsFactorText .one ['1']
  | bare {name : String} (h : IsName name) : IsFactorText (.power name 1) name.toList
  | raised {name : String} (h : IsName name) (s : Script) (n : Numeral) (hl : -Exponent.greatest ≤ n.value)
      (hu : n.value ≤ Exponent.greatest) : IsFactorText (.power name n.value) (name.toList ++ s.write n)

/-- What may stand between two factors: blanks, or a star with blanks around it. -/
inductive IsGap : List Char → Prop
  | blanks {b : List Char} (hne : b ≠ []) (hb : AllBlank b) : IsGap b
  | star {b b' : List Char} (hb : AllBlank b) (hb' : AllBlank b') : IsGap (b ++ '*' :: b')

/-- The texts of a product with at least one factor. -/
inductive IsProductText : List SurfaceFactor → List Char → Prop
  | single {f : SurfaceFactor} {cs : List Char} (h : IsFactorText f cs) : IsProductText [f] cs
  | cons {f : SurfaceFactor} {fs : List SurfaceFactor} {cs gap rest : List Char} (h : IsFactorText f cs)
      (hg : IsGap gap) (hr : IsProductText fs rest) : IsProductText (f :: fs) (cs ++ (gap ++ rest))

/-- The texts of a product that may be empty. -/
inductive IsProductText? : List SurfaceFactor → List Char → Prop
  | none : IsProductText? [] []
  | some {fs : List SurfaceFactor} {cs : List Char} (h : IsProductText fs cs) : IsProductText? fs cs

/-- The texts of a numerator and a denominator. The slash may be left out where the denominator is empty. -/
inductive IsFractionText : List SurfaceFactor → List SurfaceFactor → List Char → Prop
  | whole {above : List SurfaceFactor} {cs : List Char} (h : IsProductText? above cs) : IsFractionText above [] cs
  | slash {above below : List SurfaceFactor} {cs ds b b' : List Char} (ha : IsProductText? above cs)
      (hb : AllBlank b) (hb' : AllBlank b') (hd : IsProductText? below ds) :
      IsFractionText above below (cs ++ (b ++ '/' :: (b' ++ ds)))

/-! ### Scanning of gaps -/

variable {f : SurfaceFactor} {fs above below : List SurfaceFactor} {b b' cs gap rest : List Char} {c : Char}

theorem opensGap_blanks (hb : AllBlank b) (hr : OpensGap rest) : OpensGap (b ++ rest) := by
  cases b with
  | nil => exact hr
  | cons c b => exact opensGap_blank (hb c List.mem_cons_self)

/-- Blanks give no token. -/
theorem scanFrom_blanks (hb : AllBlank b) (rest : List Char) (position : Nat) :
    scanFrom position (b ++ rest) = scanFrom (position + b.length) rest := by
  induction b generalizing position with
  | nil => rfl
  | cons c b ih =>
    have hrest := ih (fun d hd => hb d (List.mem_cons_of_mem c hd)) (position + 1)
    rw [List.cons_append, scanFrom_cons_blank (hb c List.mem_cons_self), hrest, List.length_cons, Nat.add_assoc,
      Nat.add_comm 1]

/-- A symbol with blanks around it gives its own token only. -/
theorem scanFrom_spaced_symbol {l : Lexeme} (h : Lexeme.ofSymbol? c = some l) (hb : AllBlank b) (hb' : AllBlank b')
    (rest : List Char) (position : Nat) :
    scanFrom position (b ++ c :: (b' ++ rest)) = ⟨l, position + b.length, position + b.length + 1⟩ ::
      scanFrom (position + b.length + 1 + b'.length) rest := by
  rw [scanFrom_blanks hb, scanFrom_cons_symbol h, scanFrom_blanks hb']

/-- A gap gives no token or a star. -/
theorem scanFrom_gap (hg : IsGap gap) (rest : List Char) (position : Nat) :
    ∃ next, scanFrom position (gap ++ rest) = scanFrom next rest ∨
      ∃ t, t.lexeme = .star ∧ scanFrom position (gap ++ rest) = t :: scanFrom next rest := by
  cases hg with
  | blanks hne hb => exact ⟨_, .inl (scanFrom_blanks hb rest position)⟩
  | star hb hb' =>
    rw [List.append_assoc, List.cons_append, scanFrom_spaced_symbol rfl hb hb']
    exact ⟨_, .inr ⟨_, rfl, rfl⟩⟩

theorem IsGap.opensGap (hg : IsGap gap) : OpensGap (gap ++ rest) := by
  cases hg with
  | @blanks b hne hb =>
    obtain ⟨c, b, rfl⟩ := List.exists_cons_of_ne_nil hne
    exact opensGap_blank (hb c List.mem_cons_self)
  | star hb hb' =>
    rw [List.append_assoc]
    exact opensGap_blanks hb (opensGap_symbol rfl)

/-! ### Factors -/

/-- A text that is a term wherever it stands. -/
def IsTermText (cs : List Char) (powers : List (String × Int)) : Prop :=
  ∀ position, ∃ e, IsTerm (scanFrom position cs) e ∧ e.map Factor.power = powers

theorem IsPowerText.isTermText {power : String × Int} (h : IsPowerText cs power) : IsTermText cs [power] :=
  fun position => ⟨_, h position, rfl⟩

theorem isTermText_one : IsTermText ['1'] [] := by
  intro position
  have hscan := scanFrom_digits ⟨['1'], by decide, List.all_eq_true.mp rfl⟩ position
  refine ⟨[], ?_, rfl⟩
  rw [hscan]
  refine .one rfl ?_
  show position + 1 - position = 1
  omega

theorem IsFactorText.isTermText (h : IsFactorText f cs) : IsTermText cs (SurfaceFactor.powers [f]) := by
  cases h with
  | one => exact isTermText_one
  | bare h => exact (isPowerText_name h).isTermText
  | raised h s n hl hu =>
    have htext := isPowerText_write h s n
    rw [Numeral.reading_eq_value hl hu] at htext
    exact htext.isTermText

/-! ### Products -/

/-- A product is a term and the terms behind it. -/
theorem IsProductText.isTail (h : IsProductText fs cs) (position : Nat) :
    ∃ ts us e g, scanFrom position cs = ts ++ us ∧ IsTerm ts e ∧ IsTail us g ∧
      (e ++ g).map Factor.power = SurfaceFactor.powers fs := by
  induction h generalizing position with
  | single h =>
    obtain ⟨e, he, hpowers⟩ := h.isTermText position
    exact ⟨_, [], e, [], (List.append_nil _).symm, he, .nil, by rw [List.append_nil, hpowers]⟩
  | @cons f fs cs gap rest h hg hr ih =>
    obtain ⟨e, he, hpowers⟩ := h.isTermText position
    obtain ⟨next, hscan⟩ := scanFrom_gap hg rest (position + cs.length)
    obtain ⟨ts, us, e', g, hrest, he', hg', hpowers'⟩ := ih next
    have hmap : (e ++ (e' ++ g)).map Factor.power = SurfaceFactor.powers (f :: fs) := by
      rw [List.map_append, hpowers, hpowers', SurfaceFactor.powers_cons f fs]
    rw [scanFrom_append (hg.opensGap.parted cs)]
    -- a blank gap is juxtaposition for the grammar, and a star is its product sign
    rcases hscan with hscan | ⟨t, ht, hscan⟩
    · exact ⟨_, ts ++ us, e, e' ++ g, by rw [hscan, hrest], he, .juxtaposed he' hg', hmap⟩
    · exact ⟨_, t :: ts ++ us, e, e' ++ g, by rw [hscan, hrest]; rfl, he, .product ht he' hg', hmap⟩

theorem IsProductText?.isTerms? (h : IsProductText? fs cs) (position : Nat) :
    ∃ e, IsTerms? (scanFrom position cs) e ∧ e.map Factor.power = SurfaceFactor.powers fs := by
  cases h with
  | none => exact ⟨[], scanFrom_nil position ▸ .none, rfl⟩
  | some h =>
    obtain ⟨ts, us, e, g, hscan, he, hg, hpowers⟩ := h.isTail position
    rw [hscan]
    exact ⟨e ++ g, .some he hg, hpowers⟩

/-! ### Fractions -/

/-- What a numerator and a denominator mean: the powers of both, those of the denominator inverted. -/
def fractionPowers (above below : List SurfaceFactor) : List (String × Int) :=
  SurfaceFactor.powers above ++ (SurfaceFactor.powers below).map fun p => (p.1, -p.2)

/-- **The grammar derives every text of a fraction.** -/
theorem isUnits_text (h : IsFractionText above below cs) :
    ∃ e, IsUnits (scanFrom 0 cs) e ∧ e.map Factor.power = fractionPowers above below := by
  cases h with
  | whole h =>
    obtain ⟨e, he, hpowers⟩ := h.isTerms? 0
    refine ⟨e, .whole he, ?_⟩
    rw [hpowers, fractionPowers]
    exact (List.append_nil _).symm
  | @slash _ cs ds b b' ha hb hb' hd =>
    have hslash : Lexeme.ofSymbol? '/' = some .slash := rfl
    have hgap : OpensGap (b ++ '/' :: (b' ++ ds)) := opensGap_blanks hb (opensGap_symbol rfl)
    obtain ⟨e, he, hpowers⟩ := ha.isTerms? 0
    obtain ⟨g, hg, hpowers'⟩ := hd.isTerms? (0 + cs.length + b.length + 1 + b'.length)
    have hinverse : (g.map Factor.inverse).map Factor.power =
        (SurfaceFactor.powers below).map fun p => (p.1, -p.2) := by
      rw [← hpowers', List.map_map, List.map_map]
      rfl
    rw [scanFrom_append (hgap.parted cs), scanFrom_spaced_symbol hslash hb hb']
    refine ⟨_, .fraction he rfl hg, ?_⟩
    rw [List.map_append, hpowers, hinverse, fractionPowers]

end Grammar

/-! ### Agreement -/

namespace Parse

open Grammar

variable {above below : List SurfaceFactor} {source : String}

theorem ofSource_of_isFractionText (h : IsFractionText above below source.toList) :
    (ofSource source).problems = [] ∧
      (ofSource source).expression.map (fun t => (t.name, t.exponent.val)) = fractionPowers above below := by
  obtain ⟨e, he, hpowers⟩ := isUnits_text h
  obtain ⟨hproblems, hexpression⟩ := units_complete (TokenStream.clean_ofTokens () _) he
  refine ⟨hproblems, ?_⟩
  rw [← hpowers, ← hexpression, List.map_map]
  rfl

theorem map_power_of_isFractionText (h : IsFractionText above below source.toList) :
    (ofSource source).expression.map Term.power =
      (fractionPowers above below).map fun p => (p.1, Exponent.ofInt p.2) := by
  rw [← (ofSource_of_isFractionText h).2, List.map_map]
  refine List.map_congr_left fun t _ => ?_
  exact Prod.ext rfl (Exponent.ofInt_val t.exponent).symm

/-- **All ways of writing agree.** A text for a numerator and a denominator is read without problems as the powers of
the numerator and the inverted ones of the denominator, and any two such texts resolve to the same units. -/
theorem writings_agree (h : IsFractionText above below source.toList) :
    (ofSource source).problems = [] ∧
      (ofSource source).expression.map (fun t => (t.name, t.exponent.val)) = fractionPowers above below ∧
      ∀ source', IsFractionText above below source'.toList → ∀ (messages : MessageCatalog) (system : UnitSystem),
        (Resolution.of messages system source').units = (Resolution.of messages system source).units := by
  obtain ⟨hproblems, hpowers⟩ := ofSource_of_isFractionText h
  refine ⟨hproblems, hpowers, fun source' h' messages system => ?_⟩
  rw [Resolution.of_eq, Resolution.of_eq]
  exact Evaluation.units_congr system ((map_power_of_isFractionText h').trans (map_power_of_isFractionText h).symm)

/-- A number 1, leading zeros, blanks on either side of a symbol, and the second least exponent in the denominator. -/
theorem writings_agree_pressure :
    IsFractionText [.power "kg" 1, .one, .power "m" (-2)] [.power "s" (-9223372036854775807)]
        "kg 1\t*m^-002/ s⁻⁰⁹²²³³⁷²⁰³⁶⁸⁵⁴⁷⁷⁵⁸⁰⁷".toList ∧
      (ofSource "kg 1\t*m^-002/ s⁻⁰⁹²²³³⁷²⁰³⁶⁸⁵⁴⁷⁷⁵⁸⁰⁷").problems = [] ∧
      (ofSource "kg 1\t*m^-002/ s⁻⁰⁹²²³³⁷²⁰³⁶⁸⁵⁴⁷⁷⁵⁸⁰⁷").expression.map (fun t => (t.name, t.exponent.val)) =
        [("kg", 1), ("m", -2), ("s", 9223372036854775807)] ∧
      ∀ (messages : MessageCatalog) (system : UnitSystem),
        (Resolution.of messages system "kg¹*1 m⁻²/s^-9223372036854775807").units =
          (Resolution.of messages system "kg 1\t*m^-002/ s⁻⁰⁹²²³³⁷²⁰³⁶⁸⁵⁴⁷⁷⁵⁸⁰⁷").units := by
  have hkg : IsName "kg" := .of_all (by decide) (by decide)
  have hm : IsName "m" := .of_all (by decide) (by decide)
  have hs : IsName "s" := .of_all (by decide) (by decide)
  have hnone : AllBlank [] := List.all_eq_true.mp rfl
  have hspace : AllBlank [' '] := List.all_eq_true.mp rfl
  have htab : AllBlank ['\t'] := List.all_eq_true.mp rfl
  have first : IsFractionText [.power "kg" 1, .one, .power "m" (-2)] [.power "s" (-9223372036854775807)]
      "kg 1\t*m^-002/ s⁻⁰⁹²²³³⁷²⁰³⁶⁸⁵⁴⁷⁷⁵⁸⁰⁷".toList := by
    have htext : "kg 1\t*m^-002/ s⁻⁰⁹²²³³⁷²⁰³⁶⁸⁵⁴⁷⁷⁵⁸⁰⁷".toList =
        ("kg".toList ++ ([' '] ++ (['1'] ++ ((['\t'] ++ '*' :: []) ++ "m^-002".toList)))) ++
          ([] ++ '/' :: ([' '] ++ "s⁻⁰⁹²²³³⁷²⁰³⁶⁸⁵⁴⁷⁷⁵⁸⁰⁷".toList)) := by decide
    have hsquare : IsFactorText (.power "m" (-2)) "m^-002".toList :=
      .raised hm .caret ⟨true, ['0', '0', '2'], by decide, List.all_eq_true.mp rfl⟩ (by decide) (by decide)
    have hleast : IsFactorText (.power "s" (-9223372036854775807)) "s⁻⁰⁹²²³³⁷²⁰³⁶⁸⁵⁴⁷⁷⁵⁸⁰⁷".toList :=
      .raised hs .superscript ⟨true, "09223372036854775807".toList, by decide, List.all_eq_true.mp rfl⟩
        (by decide) (by decide)
    rw [htext]
    refine .slash (.some ?_) hnone hspace (.some (.single hleast))
    exact .cons (.bare hkg) (.blanks (by decide) hspace) (.cons .one (.star htab hnone) (.single hsquare))
  have second : IsFractionText [.power "kg" 1, .one, .power "m" (-2)] [.power "s" (-9223372036854775807)]
      "kg¹*1 m⁻²/s^-9223372036854775807".toList := by
    have htext : "kg¹*1 m⁻²/s^-9223372036854775807".toList =
        ("kg¹".toList ++ (([] ++ '*' :: []) ++ (['1'] ++ ([' '] ++ "m⁻²".toList)))) ++
          ([] ++ '/' :: ([] ++ "s^-9223372036854775807".toList)) := by decide
    have hone : IsFactorText (.power "kg" 1) "kg¹".toList :=
      .raised hkg .superscript ⟨false, ['1'], by decide, List.all_eq_true.mp rfl⟩ (by decide) (by decide)
    have hsquare : IsFactorText (.power "m" (-2)) "m⁻²".toList :=
      .raised hm .superscript ⟨true, ['2'], by decide, List.all_eq_true.mp rfl⟩ (by decide) (by decide)
    have hleast : IsFactorText (.power "s" (-9223372036854775807)) "s^-9223372036854775807".toList :=
      .raised hs .caret ⟨true, "9223372036854775807".toList, by decide, List.all_eq_true.mp rfl⟩ (by decide) (by decide)
    rw [htext]
    refine .slash (.some ?_) hnone hnone (.some (.single hleast))
    exact .cons hone (.star hnone hnone) (.cons .one (.blanks (by decide) hspace) (.single hsquare))
  obtain ⟨hproblems, hpowers, hagree⟩ := writings_agree first
  exact ⟨first, hproblems, hpowers, hagree _ second⟩

end Parse
end Dimensional
