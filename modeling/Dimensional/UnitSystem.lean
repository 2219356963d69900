import Dimensional.Dimension
import Dimensional.Diagnostic

/-!
# Unit systems

A unit system names units and says how each one resolves. A name that it does not mention resolves as a base unit.
-/

namespace Dimensional

/-- How a unit name resolves. -/
inductive Definition where
  /-- As itself. -/
  | base
  /-- As another name. -/
  | synonym (target : String)
  /-- As a product of powers of other names. -/
  | product (factors : List (String × Exponent))
deriving DecidableEq, Inhabited

namespace Definition

/-- The names that a definition refers to, with the exponents that it gives them. -/
def factors : Definition → List (String × Exponent)
  | .base => []
  | .synonym target => [(target, 1)]
  | .product fs => fs

/-- The names that a definition refers to, as often as it does. -/
def references (d : Definition) : List String :=
  d.factors.map Prod.fst

/-- The word for the kind of definition. -/
def kind : Definition → String
  | .base => "definition"
  | .synonym _ => "alias"
  | .product _ => "expression"

end Definition

/-- Definitions of names. -/
abbrev UnitSystem := NameMap Definition

namespace UnitSystem

/-- The definition of a name; a name that is not mentioned is a base unit. -/
def definition (system : UnitSystem) (name : String) : Definition :=
  (system.get? name).getD .base

/-- The base units of the metric system with their short and long names. -/
def si : UnitSystem :=
  NameMap.ofList [
    ("SI.metre", .base), ("m", .synonym "SI.metre"), ("metre", .synonym "SI.metre"),
    ("SI.second", .base), ("s", .synonym "SI.second"), ("second", .synonym "SI.second"),
    ("SI.kilogram", .base), ("kg", .synonym "SI.kilogram"), ("kilogram", .synonym "SI.kilogram"),
    ("SI.milli", .base), ("milli", .synonym "SI.milli")]

end UnitSystem

/-- What a unit system file holds: definitions, and wordings of messages. -/
structure UnitSystemFile where
  units : UnitSystem
  messages : MessageCatalog

namespace UnitSystemFile

/-- The file without definitions and wordings. -/
def empty : UnitSystemFile := ⟨NameMap.empty, .english⟩

instance : Inhabited UnitSystemFile := ⟨empty⟩

end UnitSystemFile
end Dimensional
