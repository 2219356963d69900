import Dimensional.Decimal.Text
import Dimensional.Diagnostic
import Dimensional.Json.Fault

/-!
# Failures

Why an operation on units, quantities or an engine has no result, and how that is told.
-/

namespace Dimensional

/-- The arithmetic operations on quantities. -/
inductive Operation where
  | addition
  | subtraction
  | multiplication
  | division
deriving DecidableEq, Inhabited

def Operation.name : Operation → String
  | .addition => "addition"
  | .subtraction => "subtraction"
  | .multiplication => "multiplication"
  | .division => "division"

/-- Why an operation on quantities has no result. -/
inductive OperationFault where
  | overflow (operation : Operation)
  | divisionByZero
  /-- A square root of units among which one has an odd exponent. -/
  | oddExponent (units : String) (exponent : Int) (name : String)
  | negativeRoot (value : Decimal)
deriving DecidableEq, Inhabited

def OperationFault.message : OperationFault → String
  | .overflow operation => "Arithmetic overflow in " ++ operation.name
  | .divisionByZero => "Division by zero"
  | .oddExponent units exponent name =>
    "Cannot take the square root of '" ++ units ++ "': exponent " ++ toString exponent ++ " of '" ++ name ++ "' is odd"
  | .negativeRoot value => "Cannot take the square root of negative value " ++ value.text

/-- A limit and the size that exceeds it. -/
inductive Excess where
  | sourceChars (limit actual : Nat)
  | systemEntries (limit actual : Nat)
deriving DecidableEq, Inhabited

namespace Excess

/-- The name of the limit. -/
def name : Excess → String
  | .sourceChars .. => "max_source_chars"
  | .systemEntries .. => "max_unit_system_entries"

/-- The limit in words. -/
def limitText : Excess → String
  | .sourceChars limit _ => toString limit ++ " characters"
  | .systemEntries limit _ => toString limit

/-- The size in words. -/
def actualText : Excess → String
  | .sourceChars _ actual => toString actual ++ " characters"
  | .systemEntries _ actual => toString actual

/-- What to do about it. -/
def suggestion : Excess → String
  | .sourceChars .. => "Shorten the unit expression"
  | .systemEntries .. => "Load fewer units or raise the limit"

end Excess

/-- A source with problems: the source with its problems marked in it, and the problems. -/
structure InvalidUnits where
  source : String
  annotated : String
  diagnostics : List Diagnostic
deriving DecidableEq, Inhabited

/-- Whether a kind of problem was found. -/
def InvalidUnits.has (e : InvalidUnits) (id : MessageId) : Bool :=
  e.diagnostics.any fun d => d.id == id

/-- Why there is no result. -/
inductive Failure where
  | invalidUnits (details : InvalidUnits)
  | unitsMismatch (left right : String)
  | invalidOperation (fault : OperationFault)
  | limitExceeded (excess : Excess)
  /-- A text that is no unit system file. -/
  | invalidUnitSystem (fault : Json.Fault)
  /-- A text that is not the wanted JSON. -/
  | invalidJson (fault : Json.Fault)
deriving DecidableEq, Inhabited

namespace Failure

/-- The failure in words. -/
def message : Failure → String
  | .invalidUnits details => "Invalid units: " ++ details.annotated
  | .unitsMismatch left right => "Units mismatch: '" ++ left ++ "' and '" ++ right ++ "'"
  | .invalidOperation fault => "Invalid operation: " ++ fault.message
  | .limitExceeded excess =>
    "Resource limit exceeded: " ++ excess.name ++ " (limit: " ++ excess.limitText ++ ", actual: " ++
      excess.actualText ++ "). " ++ excess.suggestion
  | .invalidUnitSystem fault => "Unit system error: Invalid unit system: " ++ fault.message
  | .invalidJson fault => "Unit system error: Invalid JSON: " ++ fault.message

/-- The problems of a source, none of another failure. -/
def diagnostics : Failure → List Diagnostic
  | .invalidUnits details => details.diagnostics
  | _ => []

end Failure
end Dimensional
