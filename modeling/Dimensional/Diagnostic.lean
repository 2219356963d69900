import Dimensional.Expression.Token

/-!
# Diagnostics

A problem found in a source says what is wrong, where, and with which details. Its wording comes from a message catalog
(`MessageCatalog.diagnose`). What finds problems is written for all surroundings that say how they are reported
(`Reporting`): as they are, or in the words of a catalog.
-/

namespace Dimensional

/-- The kinds of problems. -/
inductive MessageId where
  | numberRequired
  | exponentSymbolRequired
  | unitNameRequired
  | unexpectedToken
  | fractionSymbolRequired
  | endOfSourceRequired
  | circularReferences
  | internalError
deriving DecidableEq, Inhabited

namespace MessageId

/-- All kinds, in the order in which they are listed. -/
def all : List MessageId :=
  [.numberRequired, .exponentSymbolRequired, .unitNameRequired, .unexpectedToken, .fractionSymbolRequired,
    .endOfSourceRequired, .circularReferences, .internalError]

/-- The identifier used in catalogs and reports. -/
def key : MessageId → String
  | .numberRequired => "Number_is_required"
  | .exponentSymbolRequired => "Exponent_symbol_is_required"
  | .unitNameRequired => "Unit_name_or_1_is_required"
  | .unexpectedToken => "Unexpected_token__Unit_name_or_1_is_required"
  | .fractionSymbolRequired => "Fraction_symbol_required"
  | .endOfSourceRequired => "End_of_source_is_required"
  | .circularReferences => "Units_include_circular_references"
  | .internalError => "internal_error"

/-- The kind with a given identifier. -/
def ofKey? (key : String) : Option MessageId :=
  all.find? (fun id => id.key == key)

/-- The built-in English wording. -/
def defaultText : MessageId → String
  | .numberRequired => "Number is required"
  | .exponentSymbolRequired => "Exponent symbol ( ^ ) is required"
  | .unitNameRequired => "Unit name or 1 is required"
  | .unexpectedToken => "Unexpected token. Unit name or 1 is required"
  | .fractionSymbolRequired => "Fraction symbol ( / ) required"
  | .endOfSourceRequired => "End of source is required"
  | .circularReferences => "Units include circular references"
  | .internalError => "Internal error"

theorem ofKey?_key (id : MessageId) : ofKey? id.key = some id := by
  cases id <;> decide

theorem mem_all (id : MessageId) : id ∈ all := by
  cases id <;> decide

end MessageId

/-! ### Problems -/

/-- What is known about a problem beyond its kind. -/
inductive Detail where
  | none
  /-- The surface of a token that could not be used. -/
  | token (surface : String)
  /-- A unit whose definition reaches itself, and the names on the way from it to itself. -/
  | cycle (unit : String) (path : List String)
  /-- What is wrong with a definition. -/
  | malformed (text : String)
deriving DecidableEq, Inhabited

/-- A problem at a place of a source. -/
structure Problem where
  id : MessageId
  span : Span
  detail : Detail
deriving DecidableEq, Inhabited

/-- A problem in words. -/
structure Diagnostic extends Problem where
  message : String
deriving DecidableEq, Inhabited

/-- The surroundings in which a source is read and resolved. They say in which form a problem is reported by whoever
finds it. -/
class Reporting (γ : Type) (δ : outParam Type) where
  report : γ → Problem → δ

/-- Where nothing is known of the surroundings a problem is reported as it is. -/
instance : Reporting Unit Problem := ⟨fun _ p => p⟩

@[simp]
theorem report_unit (context : Unit) (p : Problem) : Reporting.report context p = p := rfl

namespace Diagnostic

/-- The names of a cycle with arrows between them. -/
def pathText (path : List String) : String :=
  " → ".intercalate path

/-- The message, its place and what is known beyond it. -/
def display (d : Diagnostic) : String :=
  d.message ++ " at " ++ toString d.span ++
    match d.detail with
    | .none => ""
    | .token surface => " (token '" ++ surface ++ "')"
    | .cycle _ path => " (" ++ pathText path ++ ")"
    | .malformed text => " (" ++ text ++ ")"

end Diagnostic

/-! ### Catalogs -/

/-- Wordings that replace the built-in ones. -/
structure MessageCatalog where
  override : MessageId → Option String

namespace MessageCatalog

/-- The catalog that keeps all built-in wordings. -/
def english : MessageCatalog := ⟨fun _ => none⟩

instance : Inhabited MessageCatalog := ⟨english⟩

/-- The wording of a kind of problem. -/
def text (c : MessageCatalog) (id : MessageId) : String :=
  (c.override id).getD id.defaultText

/-- Replace one wording. -/
def insert (c : MessageCatalog) (id : MessageId) (text : String) : MessageCatalog :=
  ⟨fun id' => if id' = id then some text else c.override id'⟩

/-- The wordings of both catalogs; those of the second count where both have one. -/
def merge (c other : MessageCatalog) : MessageCatalog :=
  ⟨fun id => other.override id <|> c.override id⟩

/-- The replaced wordings in the order of `MessageId.all`. -/
def overrides (c : MessageCatalog) : List (MessageId × String) :=
  MessageId.all.filterMap fun id => (c.override id).map (id, ·)

def isEmpty (c : MessageCatalog) : Bool :=
  c.overrides.isEmpty

/-- A problem in the words of the catalog. -/
def diagnose (c : MessageCatalog) (p : Problem) : Diagnostic :=
  { p with message := c.text p.id }

@[ext]
theorem ext_override {c₁ c₂ : MessageCatalog} (h : ∀ id, c₁.override id = c₂.override id) : c₁ = c₂ := by
  obtain ⟨f₁⟩ := c₁
  obtain ⟨f₂⟩ := c₂
  exact congrArg mk (funext h)

end MessageCatalog
end Dimensional
