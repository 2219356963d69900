import Dimensional.Dimension
import Dimensional.Failure

/-!
# Quantities

Numbers with units. Sums and differences need the same units, products and quotients combine them, and a square root
halves every exponent.
-/

namespace Dimensional

/-- A number with units. -/
structure Quantity where
  value : Decimal
  units : Dimension
deriving DecidableEq, Inhabited

namespace Quantity

/-- A plain number. -/
def plain (value : Decimal) : Quantity := ⟨value, .dimensionless⟩

/-- The value, and the units unless it is a plain number. -/
def display (q : Quantity) : String :=
  if q.units.isDimensionless then q.value.text else q.value.text ++ " " ++ q.units.display

/-- The result of an operation, or its overflow. -/
def orOverflow (operation : Operation) (value : Option Decimal) (units : Dimension) : Except Failure Quantity :=
  match value with
  | some v => .ok ⟨v, units⟩
  | none => .error (.invalidOperation (.overflow operation))

/-- The result of an operation for which both quantities need the same units. -/
def withSameUnits (p q : Quantity) (operation : Operation) (value : Option Decimal) : Except Failure Quantity :=
  if p.units = q.units then orOverflow operation value p.units
  else .error (.unitsMismatch p.units.display q.units.display)

def add (p q : Quantity) : Except Failure Quantity :=
  withSameUnits p q .addition (p.value.add q.value)

def sub (p q : Quantity) : Except Failure Quantity :=
  withSameUnits p q .subtraction (p.value.sub q.value)

def mul (p q : Quantity) : Except Failure Quantity :=
  orOverflow .multiplication (p.value.mul q.value) (p.units.mul q.units)

def div (p q : Quantity) : Except Failure Quantity :=
  if q.value.isZero then .error (.invalidOperation .divisionByZero)
  else orOverflow .division (p.value.div q.value) (p.units.div q.units)

/-- Multiply by a plain number. -/
def scale (q : Quantity) (factor : Decimal) : Except Failure Quantity :=
  q.mul (plain factor)

/-- The square root. An odd exponent is told in preference to a negative value. -/
def sqrt (q : Quantity) : Except Failure Quantity :=
  match q.units.entries.find? (fun e => !e.2.isEven) with
  | some e => .error (.invalidOperation (.oddExponent q.units.display e.2.val e.1))
  | none =>
    match q.value.sqrt with
    | none => .error (.invalidOperation (.negativeRoot q.value))
    | some v => .ok ⟨v, .ofList (q.units.entries.map fun e => (e.1, e.2.half))⟩

end Quantity
end Dimensional
