import Dimensional.Json.Decode
import Dimensional.UnitSystem

/-!
# JSON forms of dimensions and unit systems

A dimension is an object from names to exponents. A definition is `null` for a base unit, a string for a synonym and a
list of pairs for a product; the three forms need no tag. A unit system file is an object with the fields `units` and
`messages`, both of which may be left out.
-/

namespace Dimensional

open Json (Document Fault RecordField Record)

/-! ### Dimensions -/

namespace Dimension

def toJson (d : Dimension) : Json :=
  .object (d.entries.map fun e => (e.1, Json.int e.2.val))

/-- Exponents of 0 are left out. -/
def decode (nesting : Nat) (d : Document) : Except Fault Dimension := do
  let exponents ← d.map nesting (NameMap.empty : NameMap Exponent) fun _ m name value => do
    let e ← value.exponent
    return m.insert name e
  return .ofList exponents.entries

end Dimension

/-! ### Definitions -/

namespace Definition

/-- A factor of a product: a name and an exponent. -/
def factorToJson (f : String × Exponent) : Json :=
  .list [.string f.1, Json.int f.2.val]

def toJson : Definition → Json
  | .base => .null
  | .synonym target => .string target
  | .product factors => .list (factors.map factorToJson)

def factorOfJson? : Json → Option (String × Exponent)
  | .list [.string name, .number (.integer n)] =>
    if Exponent.least ≤ n ∧ n ≤ Exponent.greatest then some (name, .ofInt n) else none
  | _ => none

def ofJson? : Json → Option Definition
  | .null => some .base
  | .string target => some (.synonym target)
  | .list items => (items.mapM factorOfJson?).map .product
  | _ => none

/-- The whole value is read before its form is looked at. -/
def decode (nesting : Nat) (d : Document) : Except Fault Definition := do
  let value ← d.settle nesting
  match ofJson? value with
  | some definition => return definition
  | none => .error (.noVariantFits "UnitDefinition")

end Definition

/-! ### Unit systems -/

namespace UnitSystem

def toJson (system : UnitSystem) : Json :=
  .object (system.entries.map fun e => (e.1, e.2.toJson))

def decode (nesting : Nat) (d : Document) : Except Fault UnitSystem :=
  d.map nesting (NameMap.empty : UnitSystem) fun nesting m name value => do
    let definition ← Definition.decode nesting value
    return m.insert name definition

end UnitSystem

/-! ### Message catalogs -/

namespace MessageId

/-- The identifier of a kind of message, which has to be one of the known ones. -/
def ofKey (key : String) : Except Fault MessageId :=
  match ofKey? key with
  | some id => .ok id
  | none => .error (.unknownVariant key (all.map MessageId.key))

/-- What follows the only member of an object: nothing but the closing brace. -/
def finish (others : Bool) : Option Json.Break → Except Fault Unit
  | none => if others then .error .valueExpected else .ok ()
  | some b => .error (if !others && b.onRead == .endInObject then .endInObject else .valueExpected)

/-- A kind of message: its identifier, or an object whose only member is the identifier with `null`. Of other values
only the first character is looked at. -/
def decode (nesting : Nat) : Document → Except Fault MessageId
  | .string t => t.decode.bind ofKey
  | .object members ending =>
    if nesting = 0 then .error .nestingTooDeep
    else
      match members with
      | [] =>
        match ending with
        | some b => .error b.onRead
        | none => .error .valueExpected
      | (key, value) :: rest => do
        let id ← key.decode.bind ofKey
        match value with
        | .null => do
          finish (!rest.isEmpty) ending
          return id
        | value => value.mismatch "unit"
  | .absent => .error .endInValue
  | .unreached f => .error f
  | _ => .error .valueExpected

end MessageId

namespace MessageCatalog

def toJson (c : MessageCatalog) : Json :=
  .object (c.overrides.map fun o => (o.1.key, .string o.2))

def decode (nesting : Nat) (d : Document) : Except Fault MessageCatalog :=
  d.map nesting MessageCatalog.english fun _ c key value => do
    let id ← MessageId.ofKey key
    let text ← value.text
    return c.insert id text

/-- The catalog of a text. -/
def ofText (text : String) : Except Fault MessageCatalog :=
  Json.decodeText (decode Json.greatestNesting) text

end MessageCatalog

/-! ### Unit system files -/

namespace UnitSystemFile

/-- The fields of a file that are read already. -/
structure Parts where
  units : Option UnitSystem
  messages : Option MessageCatalog
deriving Inhabited

def unitsField : RecordField Parts where
  name := "units"
  isSet p := p.units.isSome
  set nesting p d := (UnitSystem.decode nesting d).map fun units => { p with units := some units }
  isOptional := true

def messagesField : RecordField Parts where
  name := "messages"
  isSet p := p.messages.isSome
  set nesting p d := (MessageCatalog.decode nesting d).map fun messages => { p with messages := some messages }
  isOptional := true

def record : Record Parts UnitSystemFile where
  name := "struct UnitSystemFile"
  fields := [unitsField, messagesField]
  isClosed := true
  start := ⟨none, none⟩
  build p := .ok ⟨p.units.getD NameMap.empty, p.messages.getD .english⟩

def toJson (f : UnitSystemFile) : Json :=
  .object [("messages", f.messages.toJson), ("units", f.units.toJson)]

def decode (nesting : Nat) (d : Document) : Except Fault UnitSystemFile :=
  record.decodePart nesting d

/-- The file of a text. -/
def ofText (text : String) : Except Fault UnitSystemFile :=
  Json.decodeText (decode Json.greatestNesting) text

end UnitSystemFile
end Dimensional
