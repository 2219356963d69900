import Dimensional.Json.UnitSystem

/-!
# JSON forms of spans and diagnostics

The detail of a diagnostic is an object with a tag `kind` among its members; it may be left out. A detail may also be a
list that starts with the tag.
-/

namespace Dimensional

open Json (Document Fault RecordField Record StringText Break)

/-! ### Spans -/

namespace Span

def toJson (s : Span) : Json :=
  .object [("end", Json.nat s.stop), ("start", Json.nat s.start)]

/-- The fields of a span that are read already. -/
structure Parts where
  start : Option Nat
  stop : Option Nat
deriving Inhabited

def startField : RecordField Parts where
  name := "start"
  isSet p := p.start.isSome
  set _ p d := d.offset.map fun start => { p with start := some start }
  isOptional := false

def stopField : RecordField Parts where
  name := "end"
  isSet p := p.stop.isSome
  set _ p d := d.offset.map fun stop => { p with stop := some stop }
  isOptional := false

def record : Record Parts Span where
  name := "struct Span"
  fields := [startField, stopField]
  isClosed := false
  start := ⟨none, none⟩
  build p :=
    match p.start, p.stop with
    | some start, some stop => .ok ⟨start, stop⟩
    | none, _ => .error (.missingField "start")
    | _, none => .error (.missingField "end")

end Span

/-! ### Details -/

namespace Detail

/-- The four kinds of details. -/
inductive Kind where
  | none
  | unexpectedToken
  | circularReference
  | internalError
deriving DecidableEq, Inhabited

namespace Kind

def all : List Kind :=
  [.none, .unexpectedToken, .circularReference, .internalError]

/-- The tag of a kind. -/
def key : Kind → String
  | .none => "none"
  | .unexpectedToken => "unexpected_token"
  | .circularReference => "circular_reference"
  | .internalError => "internal_error"

/-- What messages call a kind. -/
def name : Kind → String
  | .none => "None"
  | .unexpectedToken => "UnexpectedToken"
  | .circularReference => "CircularReference"
  | .internalError => "InternalError"

/-- The names of the fields that a kind has beside its tag. -/
def fields : Kind → List String
  | .none => []
  | .unexpectedToken => ["token"]
  | .circularReference => ["unit", "path"]
  | .internalError => ["detail"]

def ofKey (key : String) : Except Fault Kind :=
  match all.find? (fun k => k.key == key) with
  | some k => .ok k
  | Option.none => .error (.unknownVariant key (all.map Kind.key))

/-- The kind of a tag. -/
def decode : Document → Except Fault Kind
  | .string t => t.decode.bind ofKey
  | d => d.mismatch "variant identifier"

end Kind

def toJson : Detail → Json
  | .none => .object [("kind", .string Kind.none.key)]
  | .token surface => .object [("kind", .string Kind.unexpectedToken.key), ("token", .string surface)]
  | .cycle unit path =>
    .object [("kind", .string Kind.circularReference.key), ("path", .list (path.map .string)), ("unit", .string unit)]
  | .malformed text => .object [("detail", .string text), ("kind", .string Kind.internalError.key)]

/-- A value that has to be a string. -/
def textOfJson : Json → Except Fault String
  | .string text => .ok text
  | value => .error (.wrongType value.describe "a string")

/-- A value that has to be a list of strings. -/
def pathOfJson : Json → Except Fault (List String)
  | .list items => items.mapM textOfJson
  | value => .error (.wrongType value.describe "a sequence")

/-- The detail with given fields, in the order of `Kind.fields`. -/
def ofFields : Kind → List Json → Except Fault Detail
  | .none, _ => .ok .none
  | .unexpectedToken, [surface] => (textOfJson surface).map .token
  | .circularReference, [unit, path] => do
    let unit ← textOfJson unit
    let path ← pathOfJson path
    return .cycle unit path
  | .internalError, [text] => (textOfJson text).map .malformed
  | _, _ => .ok .none

/-- A fault of a field's value, if it has one. -/
def checkField (kind : Kind) (name : String) (value : Json) : Except Fault Unit :=
  match kind, name with
  | .circularReference, "path" => (pathOfJson value).map fun _ => ()
  | _, _ => (textOfJson value).map fun _ => ()

/-- Look at members in their order: no field of the kind may come twice, and each needs a value of its type. -/
def checkMembers (kind : Kind) (seen : List String) : List (String × Json) → Except Fault Unit
  | [] => .ok ()
  | (name, value) :: rest =>
    if name ∈ kind.fields then
      if name ∈ seen then .error (.duplicateField name)
      else do
        checkField kind name value
        checkMembers kind (name :: seen) rest
    else checkMembers kind seen rest

/-- The value of a field, which has to be among the members. -/
def field (members : List (String × Json)) (name : String) : Except Fault Json :=
  match members.find? (fun m => m.1 == name) with
  | some m => .ok m.2
  | Option.none => .error (.missingField name)

/-- The detail of a kind with given members. -/
def ofMembers (kind : Kind) (members : List (String × Json)) : Except Fault Detail := do
  checkMembers kind [] members
  let values ← kind.fields.mapM (field members)
  ofFields kind values

/-- A number of elements in words. -/
def elements (n : Nat) : String :=
  toString n ++ if n = 1 then " element" else " elements"

/-- The detail of a kind with given items for its fields. -/
def ofItems (kind : Kind) (items : List Json) : Except Fault Detail := do
  let wanted := kind.fields.length
  (kind.fields.zip items).forM fun (name, value) => checkField kind name value
  if items.length < wanted then
    .error (.wrongLength items.length ("struct variant DiagnosticData::" ++ kind.name ++ " with " ++ elements wanted))
  else if wanted < items.length then
    .error (.wrongLength items.length (elements wanted ++ " in sequence"))
  else ofFields kind items

/-- Read the members of a detail in their order; the tag may stand anywhere among them. -/
def readMembers (nesting : Nat) (kind : Option Kind) (members : List (String × Json)) :
    List (StringText × Document) → Except Fault (Option Kind × List (String × Json))
  | [] => .ok (kind, members.reverse)
  | (key, value) :: rest => do
    let key ← key.decode
    if key = "kind" then
      if kind.isSome then .error (.duplicateField "kind")
      else
        let k ← Kind.decode value
        readMembers nesting (some k) members rest
    else
      let value ← value.settle nesting
      readMembers nesting kind ((key, value) :: members) rest

def decode (nesting : Nat) : Document → Except Fault Detail
  | .object members ending =>
    if nesting = 0 then .error .nestingTooDeep
    else do
      let (kind, members) ← readMembers (nesting - 1) Option.none [] members
      Document.finish ending
      match kind with
      | Option.none => .error (.missingField "kind")
      | some kind => ofMembers kind members
  | .list items ending =>
    if nesting = 0 then .error .nestingTooDeep
    else
      match items with
      | [] => do
        Document.finish ending
        .error (.missingField "kind")
      | tag :: rest => do
        let kind ← Kind.decode tag
        let rest ← Document.settleItems (nesting - 1) rest
        Document.finish ending
        ofItems kind rest
  | d => d.mismatch "internally tagged enum DiagnosticData"

end Detail

/-! ### Diagnostics -/

namespace Diagnostic

def toJson (d : Diagnostic) : Json :=
  .object [("data", d.detail.toJson), ("id", .string d.id.key), ("message", .string d.message),
    ("span", d.span.toJson)]

/-- The fields of a diagnostic that are read already. -/
structure Parts where
  id : Option MessageId
  message : Option String
  span : Option Span
  detail : Option Detail
deriving Inhabited

def idField : RecordField Parts where
  name := "id"
  isSet p := p.id.isSome
  set nesting p d := (MessageId.decode nesting d).map fun id => { p with id := some id }
  isOptional := false

def messageField : RecordField Parts where
  name := "message"
  isSet p := p.message.isSome
  set _ p d := d.text.map fun message => { p with message := some message }
  isOptional := false

def spanField : RecordField Parts where
  name := "span"
  isSet p := p.span.isSome
  set nesting p d := (Span.record.decodePart nesting d).map fun span => { p with span := some span }
  isOptional := false

def detailField : RecordField Parts where
  name := "data"
  isSet p := p.detail.isSome
  set nesting p d := (Detail.decode nesting d).map fun detail => { p with detail := some detail }
  isOptional := true

def record : Record Parts Diagnostic where
  name := "struct Diagnostic"
  fields := [idField, messageField, spanField, detailField]
  isClosed := false
  start := ⟨none, none, none, none⟩
  build p :=
    match p.id, p.message, p.span with
    | some id, some message, some span => .ok ⟨⟨id, span, p.detail.getD .none⟩, message⟩
    | none, _, _ => .error (.missingField "id")
    | _, none, _ => .error (.missingField "message")
    | _, _, none => .error (.missingField "span")

def decode (nesting : Nat) (d : Document) : Except Fault Diagnostic :=
  record.decodePart nesting d

end Diagnostic
end Dimensional
