import Dimensional.Expression.Grammar
import Dimensional.Resolution.Expansion
import Dimensional.Failure

/-!
# Resolutions

What is found out about a source: its expression, its dimension, and every problem of the source and of the definitions
that it reaches. A resolution always exists; it becomes a failure only when it is asked for units alone.
-/

namespace Dimensional

/-- What a source is resolved with: the wordings of problems, and the unit system. -/
structure ResolutionContext where
  messages : MessageCatalog
  system : UnitSystem

/-- A problem is put into the words of the catalog where it is reported. -/
instance : Reporting ResolutionContext Diagnostic := ⟨fun context p => context.messages.diagnose p⟩

/-- A source with its expression, its dimension and its problems. -/
structure Resolution where
  source : String
  expression : Expression
  units : Dimension
  diagnostics : List Diagnostic
deriving DecidableEq, Inhabited

namespace Resolution

/-- Parse and resolve a source. The problems of the source come before those of the definitions. -/
def of (messages : MessageCatalog) (system : UnitSystem) (source : String) : Resolution :=
  let context : ResolutionContext := ⟨messages, system⟩
  let parse := Parse.ofSourceIn context source
  let evaluation := Evaluation.ofIn context context.system parse.expression
  { source
    expression := parse.expression
    units := evaluation.units
    diagnostics := parse.problems ++ evaluation.problems }

/-- Whether no problem was found. -/
def isOk (r : Resolution) : Bool :=
  r.diagnostics.isEmpty

/-- The units of a source without problems. Otherwise the problems, which `render` marks in the source. -/
def toUnits (render : String → List Diagnostic → String) (r : Resolution) : Except Failure Dimension :=
  if r.isOk then .ok r.units
  else .error (.invalidUnits ⟨r.source, render r.source r.diagnostics, r.diagnostics⟩)

end Resolution
end Dimensional
