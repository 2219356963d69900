import Dimensional.Expression.Grammar

/-!
# Derivations of the grammar

The grammar as relations between a token list and what it means, with no reading from left to right:

    units    = terms? ("/" terms?)?
    terms    = term ("*"? term)*
    term     = name exponent? | "1"
    exponent = "^" "-"? digits | "⁻"? superscript digits

The meaning of an expression has one factor for each name of the derivation (`Factor`), its exponent a plain integer.
Magnitudes above the range of exponents count as its end, and a slash negates the exponents to its right.
-/

namespace Dimensional

/-- A unit name with the integer it is raised to and the place of the name. -/
structure Factor where
  name : String
  exponent : Int
  span : Span
deriving DecidableEq

namespace Factor

def ofTerm (t : Term) : Factor := ⟨t.name, t.exponent.val, t.span⟩

/-- The factor on the other side of a slash. -/
def inverse (f : Factor) : Factor := { f with exponent := -f.exponent }

end Factor

namespace Grammar

/-! ### Exponents -/

def magnitude (n : Nat) : Int := min (n : Int) Exponent.greatest

/-- `sign? digits`, for the minus sign and the digits of one script. -/
inductive IsInteger (sign : Lexeme) (digits : Nat → Lexeme) : List Token → Int → Prop
  | plain {t : Token} {n : Nat} (ht : t.lexeme = digits n) : IsInteger sign digits [t] (magnitude n)
  | negated {s t : Token} {n : Nat} (hs : s.lexeme = sign) (ht : t.lexeme = digits n) :
      IsInteger sign digits [s, t] (-magnitude n)

/-- `"^" "-"? digits`, or superscripts alone. -/
inductive IsExponent : List Token → Int → Prop
  | caret {c : Token} {ts : List Token} {k : Int} (hc : c.lexeme = .caret)
      (h : IsInteger .minus .natural ts k) : IsExponent (c :: ts) k
  | superscript {ts : List Token} {k : Int} (h : IsInteger .superscriptMinus .superscript ts k) : IsExponent ts k

/-! ### Terms -/

/-- `name exponent?`, or the number 1 written with one character. -/
inductive IsTerm : List Token → List Factor → Prop
  | bare {t : Token} {n : String} (ht : t.lexeme = .name n) : IsTerm [t] [⟨n, 1, t.span⟩]
  | power {t : Token} {n : String} {ts : List Token} {k : Int} (ht : t.lexeme = .name n) (h : IsExponent ts k) :
      IsTerm (t :: ts) [⟨n, k, t.span⟩]
  | one {t : Token} (ht : t.lexeme = .natural 1) (hs : t.span.length = 1) : IsTerm [t] []

/-- `("*"? term)*`. -/
inductive IsTail : List Token → List Factor → Prop
  | nil : IsTail [] []
  | juxtaposed {ts us : List Token} {e f : List Factor} (h : IsTerm ts e) (hr : IsTail us f) :
      IsTail (ts ++ us) (e ++ f)
  | product {s : Token} {ts us : List Token} {e f : List Factor} (hs : s.lexeme = .star) (h : IsTerm ts e)
      (hr : IsTail us f) : IsTail (s :: ts ++ us) (e ++ f)

/-- `(term ("*"? term)*)?`. -/
inductive IsTerms? : List Token → List Factor → Prop
  | none : IsTerms? [] []
  | some {ts us : List Token} {e f : List Factor} (h : IsTerm ts e) (hr : IsTail us f) :
      IsTerms? (ts ++ us) (e ++ f)

/-- A whole expression: `terms? ("/" terms?)?`. -/
inductive IsUnits : List Token → List Factor → Prop
  | whole {ts : List Token} {e : List Factor} (h : IsTerms? ts e) : IsUnits ts e
  | fraction {s : Token} {ts us : List Token} {e f : List Factor} (h : IsTerms? ts e) (hs : s.lexeme = .slash)
      (hb : IsTerms? us f) : IsUnits (ts ++ s :: us) (e ++ f.map Factor.inverse)

/-! ### First tokens -/

/-- Whether a lexeme after a name belongs to an exponent, or would if a caret were put in front of it. -/
def opensExponent : Lexeme → Bool
  | .caret | .minus | .superscriptMinus | .superscript _ => true
  | _ => false

/-- What follows a name is no exponent. -/
def Free (ts : List Token) : Prop := ∀ t ∈ ts.head?, opensExponent t.lexeme = false

variable {ts us : List Token} {t : Token} {e : List Factor}

theorem Free.cons (h : opensExponent t.lexeme = false) : Free (t :: ts) := by
  intro u hu
  simp only [List.head?_cons, Option.mem_some_iff] at hu
  exact hu ▸ h

theorem opensExponent_of_startsTerm (h : startsTerm t = true) : opensExponent t.lexeme = false := by
  unfold startsTerm isOne at h
  split at h
  · next hl => rw [hl]; rfl
  · rw [Bool.and_eq_true, beq_iff_eq] at h
    rw [h.1]
    rfl

theorem startsTerm_of_one (ht : t.lexeme = .natural 1) (hs : t.span.length = 1) : startsTerm t = true := by
  simp [startsTerm, isOne, ht, hs]

theorem IsTerm.startsTerm (h : IsTerm ts e) : ∃ t us, ts = t :: us ∧ startsTerm t = true := by
  cases h with
  | bare ht => exact ⟨_, _, rfl, by simp [startsTerm, ht]⟩
  | power ht hk => exact ⟨_, _, rfl, by simp [startsTerm, ht]⟩
  | one ht hs => exact ⟨_, _, rfl, startsTerm_of_one ht hs⟩

theorem IsTail.free (h : IsTail ts e) (hf : Free us) : Free (ts ++ us) := by
  cases h with
  | nil => exact hf
  | juxtaposed h hr =>
    obtain ⟨t, vs, rfl, ht⟩ := h.startsTerm
    exact .cons (opensExponent_of_startsTerm ht)
  | product hs h hr =>
    exact .cons (by rw [hs]; rfl)

/-! ### Ranges

The integers of a derivation and their negations are exponents. -/

/-- The exponents of the factors keep their size when they are negated. -/
def Bounded (e : List Factor) : Prop :=
  ∀ f ∈ e, -Exponent.greatest ≤ f.exponent ∧ f.exponent ≤ Exponent.greatest

theorem one_bounds : -Exponent.greatest ≤ 1 ∧ 1 ≤ Exponent.greatest := by decide

theorem magnitude_bounds (n : Nat) : 0 ≤ magnitude n ∧ magnitude n ≤ Exponent.greatest := by
  simp only [magnitude, Exponent.greatest]
  omega

theorem IsInteger.bounds {sign : Lexeme} {digits : Nat → Lexeme} {k : Int} (h : IsInteger sign digits ts k) :
    -Exponent.greatest ≤ k ∧ k ≤ Exponent.greatest := by
  cases h with
  | @plain t n ht =>
    have := magnitude_bounds n
    omega
  | @negated s t n hs ht =>
    have := magnitude_bounds n
    omega

theorem IsExponent.bounds {k : Int} (h : IsExponent ts k) : -Exponent.greatest ≤ k ∧ k ≤ Exponent.greatest := by
  cases h with
  | caret hc h => exact h.bounds
  | superscript h => exact h.bounds

theorem Bounded.append {f : List Factor} (he : Bounded e) (hf : Bounded f) : Bounded (e ++ f) := by
  intro x hx
  rcases List.mem_append.mp hx with hx | hx
  · exact he x hx
  · exact hf x hx

theorem bounded_inverse_iff : Bounded (e.map Factor.inverse) ↔ Bounded e := by
  have hbounds : ∀ f : Factor, (-Exponent.greatest ≤ f.inverse.exponent ∧ f.inverse.exponent ≤ Exponent.greatest) ↔
      (-Exponent.greatest ≤ f.exponent ∧ f.exponent ≤ Exponent.greatest) := by
    intro f
    show (-Exponent.greatest ≤ -f.exponent ∧ -f.exponent ≤ Exponent.greatest) ↔ _
    omega
  simp only [Bounded, List.forall_mem_map, hbounds]

theorem IsTerm.bounded (h : IsTerm ts e) : Bounded e := by
  cases h with
  | bare ht =>
    intro f hf
    rw [List.mem_singleton.mp hf]
    exact one_bounds
  | power ht h =>
    intro f hf
    rw [List.mem_singleton.mp hf]
    exact h.bounds
  | one ht hs => exact fun f hf => absurd hf List.not_mem_nil

theorem IsTail.bounded (h : IsTail ts e) : Bounded e := by
  induction h with
  | nil => exact fun f hf => absurd hf List.not_mem_nil
  | juxtaposed h hr ih => exact h.bounded.append ih
  | product hs h hr ih => exact h.bounded.append ih

theorem IsTerms?.bounded (h : IsTerms? ts e) : Bounded e := by
  cases h with
  | none => exact fun f hf => absurd hf List.not_mem_nil
  | some h hr => exact h.bounded.append hr.bounded

theorem IsUnits.bounded (h : IsUnits ts e) : Bounded e := by
  cases h with
  | whole h => exact h.bounded
  | fraction h _ hb => exact h.bounded.append (bounded_inverse_iff.mpr hb.bounded)

end Grammar
end Dimensional
