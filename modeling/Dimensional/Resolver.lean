import Dimensional.Json.UnitSystem
import Dimensional.Quantity
import Dimensional.Report.Inline
import Dimensional.Resolution

/-!
# Resolvers

A resolver holds the loaded unit system and the wordings of messages, and answers questions about sources. Limits bound
the sources and the unit system. Loading works on a resolver in place and may fail on the way (`Loading`); it either
succeeds as a whole or changes nothing.
-/

namespace Dimensional

/-- Bounds on sources and unit systems. -/
structure Limits where
  /-- The greatest number of characters of a source. -/
  sourceChars : Nat := 1024
  /-- The greatest number of names that a unit system mentions. -/
  systemEntries : Nat := 10000
deriving DecidableEq, Inhabited

/-- A unit system and wordings to resolve sources with, within limits. -/
structure Resolver where
  system : UnitSystem
  messages : MessageCatalog
  limits : Limits

namespace Resolver

/-- The metric base units and the built-in wordings. -/
def standard : Resolver := ⟨UnitSystem.si, .english, {}⟩

instance : Inhabited Resolver := ⟨standard⟩

/-! ### Sources -/

/-- Parse and resolve a source. Nothing is read of a source that is too long. -/
def resolve (r : Resolver) (source : String) : Except Failure Resolution :=
  if r.limits.sourceChars < source.length then
    .error (.limitExceeded (.sourceChars r.limits.sourceChars source.length))
  else .ok (.of r.messages r.system source)

/-- The units of a source; problems are marked in the source by `render`. -/
def unitsWith (r : Resolver) (render : String → List Diagnostic → String) (source : String) :
    Except Failure Dimension := do
  let resolution ← r.resolve source
  resolution.toUnits render

/-- The units of a source; problems are marked in the source by pointing hands. -/
def unitsOf (r : Resolver) (source : String) : Except Failure Dimension :=
  r.unitsWith MarkStyle.pointed.render source

/-- Whether two sources denote the same units. The left one is looked at first. -/
def equivalent (r : Resolver) (left right : String) : Except Failure Bool := do
  let left ← r.unitsOf left
  let right ← r.unitsOf right
  return left == right

/-- A number with the units of a source. -/
def measure (r : Resolver) (value : Decimal) (source : String) : Except Failure Quantity := do
  let units ← r.unitsOf source
  return ⟨value, units⟩

/-! ### Loading -/

/-- The number of names that the loaded unit system and another one mention together. -/
def entriesWith (r : Resolver) (other : UnitSystem) : Nat :=
  r.system.size + (other.names.filter fun n => !r.system.contains n).length

/-- Work on a resolver that may fail. What was done before the failure stays done. -/
abbrev Loading := ExceptT Failure (StateM Resolver)

namespace Loading

/-- The outcome of the work, and the resolver that it leaves. -/
def perform (work : Loading Unit) (r : Resolver) : Except Failure Unit × Resolver :=
  work.run.run r

/-- The resolver after work that does not fail. -/
def loaded (work : Loading Unit) (r : Resolver) : Except Failure Resolver :=
  match work.perform r with
  | (.ok (), after) => .ok after
  | (.error f, _) => .error f

end Loading

/-- Load definitions over the loaded ones. -/
def loadSystem (other : UnitSystem) : Loading Unit := do
  let r ← get
  if r.limits.systemEntries < r.entriesWith other then
    throw (.limitExceeded (.systemEntries r.limits.systemEntries (r.entriesWith other)))
  set { r with system := r.system.merge other }

/-- Load wordings over the loaded ones. -/
def loadMessages (other : MessageCatalog) : Loading Unit :=
  modify fun r => { r with messages := r.messages.merge other }

/-- Load the text of a unit system file: its definitions, and then its wordings. -/
def loadText (text : String) : Loading Unit :=
  match UnitSystemFile.ofText text with
  | .error fault => throw (.invalidUnitSystem fault)
  | .ok file => do
    loadSystem file.units
    loadMessages file.messages

/-- The resolver with definitions loaded. -/
def addSystem (r : Resolver) (other : UnitSystem) : Except Failure Resolver :=
  (loadSystem other).loaded r

/-- The resolver with wordings loaded. -/
def addMessages (r : Resolver) (other : MessageCatalog) : Resolver :=
  ((loadMessages other).perform r).2

/-- The resolver with the text of a unit system file loaded. -/
def addText (r : Resolver) (text : String) : Except Failure Resolver :=
  (loadText text).loaded r

end Resolver
end Dimensional
