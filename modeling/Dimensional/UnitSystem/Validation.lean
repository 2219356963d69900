import Dimensional.UnitSystem.Dependency

/-!
# Validation of unit systems

What can be said about a unit system before any expression is resolved: an order of its units in which each comes after
those it refers to, the units for which there is no such place, and references to names that are not defined.
-/

namespace Dimensional

/-- What was found in a unit system. -/
structure Validation where
  /-- The units in dependency order, without the cyclic ones. -/
  order : List String
  /-- The units that are on a cycle or refer to one, in order. -/
  cyclicUnits : List String
  /-- Units with a name that they refer to and that is not defined. Such a name resolves as a base unit. -/
  danglingReferences : List (String × String)
deriving DecidableEq, Inhabited

namespace Validation

/-- A unit system without cycles is valid. -/
def isValid (v : Validation) : Bool :=
  v.cyclicUnits.isEmpty

end Validation

namespace UnitSystem

/-- The references to names that are not defined, in the order of the units. -/
def danglingReferences (system : UnitSystem) : List (String × String) :=
  system.entries.flatMap fun e =>
    (e.2.references.filter fun r => !system.contains r).map fun r => (e.1, r)

def validate (system : UnitSystem) : Validation :=
  let sorted := (DependencyGraph.ofSystem system).sort
  { order := sorted.order.filter fun n => system.contains n
    cyclicUnits := sorted.blocked
    danglingReferences := system.danglingReferences }

end UnitSystem
end Dimensional
