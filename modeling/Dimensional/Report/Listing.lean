import Dimensional.Report.Table
import Dimensional.Expression.Term
import Dimensional.UnitSystem.Validation

/-!
# Listings

Dimensions, unit systems and validations as texts for a terminal.
-/

namespace Dimensional

namespace Dimension

/-- The dimension on a line of its own. -/
def listing (d : Dimension) : String :=
  d.display ++ "\n"

end Dimension

namespace Definition

/-- What a definition says, in one cell of a table. -/
def listing : Definition → String
  | .base => "base unit"
  | .synonym target => target
  | .product factors => Term.caretTexts factors

end Definition

namespace UnitSystem

/-- All definitions in a table, and their number. -/
def listing (system : UnitSystem) : String :=
  if system.isEmpty then "No units loaded. Every name resolves as a base unit.\n"
  else
    let table : Table :=
      { header := ["Unit", "Kind", "Definition"]
        rows := system.entries.map fun e => [e.1, e.2.kind, e.2.listing] }
    table.text ++ "\n\n" ++ toString system.size ++ " unit(s)\n"

end UnitSystem

namespace Validation

/-- The cyclic units, or the number of units if there are none. -/
def cycleListing (v : Validation) : String :=
  if v.cyclicUnits.isEmpty then "✓ No circular definitions (" ++ toString v.order.length ++ " unit(s) checked)\n"
  else "✗ Circular definitions:\n" ++ String.join (v.cyclicUnits.map fun u => "  " ++ u ++ "\n")

/-- The references to undefined names in a table. -/
def danglingListing (v : Validation) : String :=
  if v.danglingReferences.isEmpty then ""
  else
    let table : Table :=
      { header := ["Unit", "References undefined"]
        rows := v.danglingReferences.map fun r => [r.1, r.2] }
    "\nUndefined references (resolved as base units):\n" ++ table.text ++ "\n"

def listing (v : Validation) : String :=
  v.cycleListing ++ v.danglingListing

end Validation
end Dimensional
