import Dimensional.Exponent
import Dimensional.Json.Document
import Dimensional.Json.Value

/-!
# Decoding JSON documents

Values of a wanted shape from documents. The parts of a document are decoded in the order of the text, and the first
fault met ends the decoding, be it a break of the text or a part of another shape. `nesting` counts how many lists and
objects may still be opened.
-/

namespace Dimensional
namespace Json

/-- How deep lists and objects may be nested. -/
def greatestNesting : Nat := 127

/-- The greatest integer without a sign. -/
def greatestUnsigned : Nat := 18446744073709551615

/-! ### Numbers -/

namespace NumberText

/-- The significand of a digit run that follows a significand; digits that would make it greater than
`greatestUnsigned` are left out. The number of digits that count is returned with it. -/
def extend (significand : Nat) : List Nat → Nat × Nat
  | [] => (significand, 0)
  | d :: rest =>
    if greatestUnsigned < 10 * significand + d then (significand, 0)
    else
      let more := extend (10 * significand + d) rest
      (more.1, more.2 + 1)

/-- The value of a digit run. -/
def natural (digits : List Nat) : Nat :=
  digits.foldl (fun n d => 10 * n + d) 0

/-- The greatest exponent that is read as written. -/
def greatestExponent : Nat := 2147483647

/-- A number with a fraction, an exponent, or more digits than an integer has. -/
def real (t : NumberText) : Except Fault Binary64 :=
  let whole := extend 0 t.whole
  let fraction := extend whole.1 t.fraction
  let significand := fraction.1
  let scale : Int := Int.ofNat (t.whole.length - whole.2) - Int.ofNat fraction.2
  let number (e : Int) : Except Fault Binary64 :=
    match Binary64.ofScientific? t.negative significand e with
    | some x => .ok x
    | none => .error .numberOutOfRange
  match t.exponent with
  | none => number scale
  | some (negative, digits) =>
    let e := natural digits
    if greatestExponent < e then
      if significand ≠ 0 ∧ !negative then .error .numberOutOfRange else .ok ⟨t.negative, 0, 0⟩
    else number (if negative then scale - e else scale + e)

/-- The number that a text stands for. -/
def value (t : NumberText) : Except Fault Number :=
  let n := natural t.whole
  let isInteger := t.fraction.isEmpty && t.exponent.isNone &&
    if t.negative then 0 < n && n ≤ 9223372036854775808 else n ≤ greatestUnsigned
  if isInteger then .ok (.integer (if t.negative then -n else n))
  else t.real.map .real

end NumberText

/-! ### Strings -/

namespace StringEnd

/-- The fault of a string that is not closed. -/
def fault? : StringEnd → Option Fault
  | .quote => none
  | .endOfText => some .endInString
  | .controlCharacter => some .controlCharacter
  | .unknownEscape => some .invalidEscape
  | .badHexEscape => some .invalidEscape

/-- The fault of a string that ends behind the first half of a surrogate pair. -/
def faultInPair : StringEnd → Fault
  | .endOfText => .endInString
  | .badHexEscape => .invalidEscape
  | _ => .unfinishedEscape

end StringEnd

namespace StringText

/-- The characters of a string; escapes for the two halves of a surrogate pair make one character. The characters
decoded so far are given in reverse. -/
def decodePieces (ending : StringEnd) (decoded : List Char) : List Piece → Except Fault String
  | [] =>
    match ending.fault? with
    | some f => .error f
    | none => .ok (String.ofList decoded.reverse)
  | .char c :: rest => decodePieces ending (c :: decoded) rest
  | .stray :: rest =>
    -- Told at the end of the string, unless something else is wrong before.
    match decodePieces ending decoded rest with
    | .error f => .error f
    | .ok _ => .error .invalidCharacter
  | .unit u :: rest =>
    if 0xDC00 ≤ u ∧ u ≤ 0xDFFF then .error .loneSurrogate
    else if 0xD800 ≤ u ∧ u ≤ 0xDBFF then
      match rest with
      | .unit v :: rest =>
        if 0xDC00 ≤ v ∧ v ≤ 0xDFFF then
          decodePieces ending (Char.ofNat ((u - 0xD800) * 0x400 + (v - 0xDC00) + 0x10000) :: decoded) rest
        else .error .loneSurrogate
      | .char _ :: _ | .stray :: _ => .error .unfinishedEscape
      | [] => .error ending.faultInPair
    else decodePieces ending (Char.ofNat u :: decoded) rest

def decode (t : StringText) : Except Fault String :=
  decodePieces t.ending [] t.pieces

/-- Pass over a string without decoding it. -/
def skip (t : StringText) : Except Fault Unit :=
  match t.ending.fault? with
  | some f => .error f
  | none => .ok ()

end StringText

/-! ### Kinds of values in words -/

def Number.describe : Number → String
  | .integer n => "integer " ++ Fault.quoted (toString n)
  | .real x => "floating point " ++ Fault.quoted x.scientificText

/-- The kind of a value, with the value if it has no parts. -/
def describe : Json → String
  | .null => "null"
  | .bool b => "boolean " ++ Fault.quoted (if b then "true" else "false")
  | .number n => n.describe
  | .string text => "string " ++ escaped text
  | .list _ => "sequence"
  | .object _ => "map"

namespace Document

/-- A break after the parts of a list or object is met by one who reads on. -/
def finish : Option Break → Except Fault Unit
  | none => .ok ()
  | some b => .error b.onRead

/-- The kind of value that a document starts with; parts of lists and objects are not looked at. -/
def describe : Document → Except Fault String
  | .null => .ok (Json.describe .null)
  | .bool b => .ok (Json.describe (.bool b))
  | .number t => t.value.map fun n => Json.describe (.number n)
  | .string t => t.decode.map fun text => Json.describe (.string text)
  | .list .. => .ok (Json.describe (.list []))
  | .object .. => .ok (Json.describe (.object []))
  | .broken b => .error b.onRead
  | .absent => .error .endInValue
  | .unreached f => .error f

/-- The fault of a document of another kind than expected. -/
def mismatch {α : Type} (expected : String) (d : Document) : Except Fault α :=
  match d.describe with
  | .ok found => .error (.wrongType found expected)
  | .error f => .error f

/-! ### Passing over values -/

mutual

/-- Pass over a value that is not wanted. -/
def skip : Document → Except Fault Unit
  | .null => .ok ()
  | .bool _ => .ok ()
  | .number _ => .ok ()
  | .string t => t.skip
  | .list items ending => do
    skipItems items
    match ending with
    | none => .ok ()
    | some b => .error b.onSkip
  | .object members ending => do
    skipMembers members
    match ending with
    | none => .ok ()
    | some b => .error b.onSkip
  | .broken b => .error b.onSkip
  | .absent => .error .endInValue
  | .unreached f => .error f

def skipItems : List Document → Except Fault Unit
  | [] => .ok ()
  | item :: rest => do
    skip item
    skipItems rest

def skipMembers : List (StringText × Document) → Except Fault Unit
  | [] => .ok ()
  | (key, value) :: rest => do
    key.skip
    skip value
    skipMembers rest

end

/-! ### Whole values -/

mutual

/-- The JSON value of a document. -/
def settle (nesting : Nat) : Document → Except Fault Json
  | .null => .ok .null
  | .bool b => .ok (.bool b)
  | .number t => t.value.map .number
  | .string t => t.decode.map .string
  | .list items ending =>
    if nesting = 0 then .error .nestingTooDeep
    else do
      let items ← settleItems (nesting - 1) items
      finish ending
      return .list items
  | .object members ending =>
    if nesting = 0 then .error .nestingTooDeep
    else do
      let members ← settleMembers (nesting - 1) members
      finish ending
      return .object members
  | .broken b => .error b.onRead
  | .absent => .error .endInValue
  | .unreached f => .error f

def settleItems (nesting : Nat) : List Document → Except Fault (List Json)
  | [] => .ok []
  | item :: rest => do
    let item ← settle nesting item
    let rest ← settleItems nesting rest
    return item :: rest

def settleMembers (nesting : Nat) : List (StringText × Document) → Except Fault (List (String × Json))
  | [] => .ok []
  | (key, value) :: rest => do
    let key ← key.decode
    let value ← settle nesting value
    let rest ← settleMembers nesting rest
    return (key, value) :: rest

end

/-! ### Simple values -/

/-- A string. -/
def text : Document → Except Fault String
  | .string t => t.decode
  | d => d.mismatch "a string"

/-- An exponent. -/
def exponent : Document → Except Fault Exponent
  | .number t =>
    match t.value with
    | .error f => .error f
    | .ok (.real x) => .error (.wrongType (Number.real x).describe "i64")
    | .ok (.integer n) =>
      if Exponent.least ≤ n ∧ n ≤ Exponent.greatest then .ok (.ofInt n)
      else .error (.wrongValue (Number.integer n).describe "i64")
  | d => d.mismatch "i64"

/-- An offset in a text. -/
def offset : Document → Except Fault Nat
  | .number t =>
    match t.value with
    | .error f => .error f
    | .ok (.real x) => .error (.wrongType (Number.real x).describe "usize")
    | .ok (.integer n) =>
      if 0 ≤ n then .ok n.toNat else .error (.wrongValue (Number.integer n).describe "usize")
  | d => d.mismatch "usize"

/-! ### Objects as maps -/

/-- Decode the members of an object one after the other into a growing map. -/
def foldMembers {σ : Type} (add : σ → String → Document → Except Fault σ) (start : σ) :
    List (StringText × Document) → Except Fault σ
  | [] => .ok start
  | (key, value) :: rest => do
    let key ← key.decode
    let next ← add start key value
    foldMembers add next rest

/-- Decode an object with arbitrary keys. -/
def map {σ : Type} (nesting : Nat) (start : σ) (add : Nat → σ → String → Document → Except Fault σ) :
    Document → Except Fault σ
  | .object members ending =>
    if nesting = 0 then .error .nestingTooDeep
    else do
      let all ← foldMembers (add (nesting - 1)) start members
      finish ending
      return all
  | d => d.mismatch "a map"

end Document

/-! ### Objects with fixed keys -/

/-- A field of a record that is built up in a state `σ`. -/
structure RecordField (σ : Type) where
  name : String
  /-- Whether the state has the field's value already. -/
  isSet : σ → Bool
  /-- Decode the field's value into the state. -/
  set : Nat → σ → Document → Except Fault σ
  /-- Whether the field may be left out. -/
  isOptional : Bool

/-- A record, written as an object or as the list of its fields. -/
structure Record (σ α : Type) where
  /-- What messages call the record. -/
  name : String
  fields : List (RecordField σ)
  /-- Whether other members than the fields are faults. -/
  isClosed : Bool
  start : σ
  /-- The value of the record, or the fault of a field that is missing. -/
  build : σ → Except Fault α

namespace Record

variable {σ α : Type}

/-- The path to a fault in the value of a member. A break in front of the value is not in it. -/
def locateMember (key : String) (value : Document) (f : Fault) : Misread :=
  match value with
  | .unreached _ => .here f
  | _ => .under (.field key) (.here f)

/-- The record with its number of fields, as messages call it. -/
def nameWithCount (r : Record σ α) : String :=
  r.name ++ " with " ++ toString r.fields.length ++ if r.fields.length = 1 then " element" else " elements"

/-- Decode the members of an object. -/
def foldMembers (r : Record σ α) (nesting : Nat) (state : σ) :
    List (StringText × Document) → Except Misread σ
  | [] => .ok state
  | (key, value) :: rest =>
    match key.decode with
    | .error f => .error (.here f)
    | .ok key =>
      match r.fields.find? (fun field => field.name == key) with
      | some field =>
        if field.isSet state then .error (.here (.duplicateField key))
        else
          match field.set nesting state value with
          | .error f => .error (locateMember key value f)
          | .ok next => foldMembers r nesting next rest
      | none =>
        if r.isClosed then .error (.here (.unknownField key (r.fields.map RecordField.name)))
        else
          match value.skip with
          | .error f => .error (locateMember key value f)
          | .ok () => foldMembers r nesting state rest

/-- What follows the last field in a list: nothing but the closing bracket. -/
def finishItems (rest : List Document) (ending : Option Break) : Except Fault Unit :=
  if !rest.isEmpty then .error .trailingCharacters
  else
    match ending with
    | none => .ok ()
    | some b =>
      match b.onRead with
      | .trailingComma => .error .trailingComma
      | .endInList => .error .endInList
      | _ => .error .trailingCharacters

/-- Decode the items of a list as the values of the fields, the first of which is the one at `index`. -/
def foldItems (r : Record σ α) (nesting : Nat) (ending : Option Break) (index : Nat) (state : σ) :
    List (RecordField σ) → List Document → Except Misread σ
  | [], rest =>
    match finishItems rest ending with
    | .error f => .error (.here f)
    | .ok () => .ok state
  | field :: fields, item :: rest =>
    match field.set nesting state item with
    | .error f => .error (.under (.item index) (.here f))
    | .ok next => foldItems r nesting ending (index + 1) next fields rest
  | field :: fields, [] =>
    match ending with
    | some b => .error (.here b.onRead)
    | none =>
      if field.isOptional then foldItems r nesting ending (index + 1) state fields []
      else .error (.here (.wrongLength index r.nameWithCount))

/-- Turn a fault into a misreading of the value itself. -/
def locate {β : Type} : Except Fault β → Except Misread β
  | .ok b => .ok b
  | .error f => .error (.here f)

/-- Decode a record. -/
def decode (r : Record σ α) (nesting : Nat) : Document → Except Misread α
  | .object members ending =>
    if nesting = 0 then .error (.here .nestingTooDeep)
    else do
      let state ← r.foldMembers (nesting - 1) r.start members
      locate (Document.finish ending)
      locate (r.build state)
  | .list items ending =>
    if nesting = 0 then .error (.here .nestingTooDeep)
    else do
      let state ← r.foldItems (nesting - 1) ending 0 r.start r.fields items
      locate (r.build state)
  | d => locate (d.mismatch r.name)

/-- Decode a record that is part of another value; the path to a fault is left out. -/
def decodePart (r : Record σ α) (nesting : Nat) (d : Document) : Except Fault α :=
  match r.decode nesting d with
  | .ok a => .ok a
  | .error m => .error m.fault

end Record

/-! ### Whole texts -/

/-- Decode the value that some bytes start with; what follows it is not looked at. -/
def decodeStart {α ε : Type} (decode : Document → Except ε α) (bytes : ByteArray) : Except ε α :=
  decode (Document.readStart (Utf8.glyphs bytes)).1

/-- Decode a text that holds one value and blanks. -/
def decodeText {α : Type} (decode : Document → Except Fault α) (text : String) : Except Fault α :=
  let (d, rest) := Document.readStart (Glyph.ofText text)
  match decode d with
  | .error f => .error f
  | .ok a => if (Document.skipSpace (rest.getD [])).isEmpty then .ok a else .error .trailingCharacters

end Json
end Dimensional
