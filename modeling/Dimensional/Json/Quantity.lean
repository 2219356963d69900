import Dimensional.Json.UnitSystem
import Dimensional.Quantity

/-!
# JSON forms of quantities

A quantity is an object with the fields `value` and `units`. Its value may be a string or a number.
-/

namespace Dimensional

open Json (Document Fault RecordField Record)

namespace Decimal

/-- What messages call a decimal number. -/
def expectation : String := "a Decimal type representing a fixed-point number"

/-- The number of a text, or the fault of the JSON value that holds the text. -/
def ofTextIn (value : Json) (text : String) : Except Fault Decimal :=
  match ofText? text with
  | some a => .ok a
  | none => .error (.wrongValue value.describe expectation)

/-- The number of a text without an exponent, or the fault of the JSON value that stands for it. -/
def ofPlainTextIn (value : Json) (text : String) : Except Fault Decimal :=
  match ofPlainText? text.toList with
  | some a => .ok a
  | none => .error (.wrongValue value.describe expectation)

def decode : Document → Except Fault Decimal
  | .string t => do
    let text ← t.decode
    ofTextIn (.string text) text
  | .number t => do
    match ← t.value with
    | .integer n => ofPlainTextIn (Json.int n) (toString n)
    | .real x => ofPlainTextIn (.number (.real x)) x.positionalText
  | d => d.mismatch expectation

end Decimal

namespace Quantity

/-- The fields of a quantity that are read already. -/
structure Parts where
  value : Option Decimal
  units : Option Dimension
deriving Inhabited

def valueField : RecordField Parts where
  name := "value"
  isSet p := p.value.isSome
  set _ p d := (Decimal.decode d).map fun value => { p with value := some value }
  isOptional := false

def unitsField : RecordField Parts where
  name := "units"
  isSet p := p.units.isSome
  set nesting p d := (Dimension.decode nesting d).map fun units => { p with units := some units }
  isOptional := false

def record : Record Parts Quantity where
  name := "struct Quantity"
  fields := [valueField, unitsField]
  isClosed := false
  start := ⟨none, none⟩
  build p :=
    match p.value, p.units with
    | some value, some units => .ok ⟨value, units⟩
    | none, _ => .error (.missingField "value")
    | _, none => .error (.missingField "units")

def decode (nesting : Nat) (d : Document) : Except Fault Quantity :=
  record.decodePart nesting d

end Quantity
end Dimensional
