import Dimensional.Exponent
import Dimensional.Expression.Token

/-!
# Terms and expressions

An expression is the list of terms of a source as they were written. Nothing is resolved or merged: `m m` has two terms.
-/

namespace Dimensional

/-- A unit name with its exponent and the place of the name in the source. -/
structure Term where
  name : String
  exponent : Exponent
  span : Span
deriving DecidableEq, Inhabited

/-- The terms of a source in order. -/
abbrev Expression := List Term

namespace Term

/-- A term with its exponent negated. -/
def reciprocal (t : Term) : Term :=
  { t with exponent := -t.exponent }

/-- The name and exponent of a term. -/
def power (t : Term) : String × Exponent :=
  (t.name, t.exponent)

/-- A power written with a caret, the exponent left out when it is 1. -/
def caretText (p : String × Exponent) : String :=
  if p.2 = 1 then p.1 else p.1 ++ "^" ++ toString p.2

/-- Powers written with carets, blanks between them. -/
def caretTexts (ps : List (String × Exponent)) : String :=
  " ".intercalate (ps.map caretText)

end Term

namespace Expression

/-- The terms of a denominator: every exponent negated. -/
def reciprocal (e : Expression) : Expression :=
  e.map Term.reciprocal

/-- The expression written with carets. -/
def display (e : Expression) : String :=
  Term.caretTexts (e.map Term.power)

end Expression
end Dimensional
