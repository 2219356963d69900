import Dimensional.Text.Unprintable

/-!
# Faults of JSON texts

Why a text could not be read: it is not JSON, or it is JSON of another shape than the wanted one. A fault says what is
wrong; the line and the column at which a reader of JSON meets it are no part of it.
-/

namespace Dimensional

/-! ### Quoted texts -/

/-- A hexadecimal digit in lower case. -/
def hexDigits (n : Nat) : List Char :=
  Nat.toDigits 16 n

/-- Whether a character is plainly visible: it shows something, and does so in a place of its own. -/
def isPlainlyVisible (c : Char) : Bool :=
  !isUnprintable c && !isGraphemeExtend c

/-- A character inside a quoted text. -/
def escapedChar (c : Char) : List Char :=
  match c with
  | '"' => ['\\', '"']
  | '\\' => ['\\', '\\']
  | '\n' => ['\\', 'n']
  | '\r' => ['\\', 'r']
  | '\t' => ['\\', 't']
  | '\x00' => ['\\', '0']
  | c => if isPlainlyVisible c then [c] else ['\\', 'u', '\x7b'] ++ hexDigits c.toNat ++ ['\x7d']

/-- A text in double quotes. -/
def escaped (text : String) : String :=
  String.ofList ('"' :: text.toList.flatMap escapedChar ++ ['"'])

/-! ### Faults -/

namespace Json

/-- Why a JSON text could not be read. -/
inductive Fault where
  | endInValue
  | endInObject
  | endInList
  | endInString
  | valueExpected
  | wordExpected
  | colonExpected
  | objectCommaExpected
  | listCommaExpected
  | trailingCharacters
  | trailingComma
  | keyNotString
  | invalidNumber
  | numberOutOfRange
  | invalidEscape
  | unfinishedEscape
  | loneSurrogate
  | controlCharacter
  /-- A string that holds bytes that are no character. -/
  | invalidCharacter
  | nestingTooDeep
  /-- Another kind of value than expected. -/
  | wrongType (found expected : String)
  /-- The right kind of value, but not a possible one. -/
  | wrongValue (found expected : String)
  /-- A list of another length than expected. -/
  | wrongLength (length : Nat) (expected : String)
  | missingField (name : String)
  | duplicateField (name : String)
  | unknownField (name : String) (known : List String)
  | unknownVariant (name : String) (known : List String)
  /-- No variant of a type that has no tags fits. -/
  | noVariantFits (type : String)
deriving DecidableEq, Inhabited

namespace Fault

/-- A name in the quotes that messages put around names. -/
def quoted (name : String) : String :=
  "\x60" ++ name ++ "\x60"

/-- The names that would have been accepted. -/
def choices : List String → String
  | [a] => quoted a
  | [a, b] => quoted a ++ " or " ++ quoted b
  | names => "one of " ++ ", ".intercalate (names.map quoted)

/-- The fault in words. -/
def message : Fault → String
  | .endInValue => "EOF while parsing a value"
  | .endInObject => "EOF while parsing an object"
  | .endInList => "EOF while parsing a list"
  | .endInString => "EOF while parsing a string"
  | .valueExpected => "expected value"
  | .wordExpected => "expected ident"
  | .colonExpected => "expected " ++ quoted ":"
  | .objectCommaExpected => "expected " ++ quoted "," ++ " or " ++ quoted "\x7d"
  | .listCommaExpected => "expected " ++ quoted "," ++ " or " ++ quoted "]"
  | .trailingCharacters => "trailing characters"
  | .trailingComma => "trailing comma"
  | .keyNotString => "key must be a string"
  | .invalidNumber => "invalid number"
  | .numberOutOfRange => "number out of range"
  | .invalidEscape => "invalid escape"
  | .unfinishedEscape => "unexpected end of hex escape"
  | .loneSurrogate => "lone leading surrogate in hex escape"
  | .controlCharacter => "control character (\\u0000-\\u001F) found while parsing a string"
  | .invalidCharacter => "invalid unicode code point"
  | .nestingTooDeep => "recursion limit exceeded"
  | .wrongType found expected => "invalid type: " ++ found ++ ", expected " ++ expected
  | .wrongValue found expected => "invalid value: " ++ found ++ ", expected " ++ expected
  | .wrongLength length expected => "invalid length " ++ toString length ++ ", expected " ++ expected
  | .missingField name => "missing field " ++ quoted name
  | .duplicateField name => "duplicate field " ++ quoted name
  | .unknownField name known => "unknown field " ++ quoted name ++ ", expected " ++ choices known
  | .unknownVariant name known => "unknown variant " ++ quoted name ++ ", expected " ++ choices known
  | .noVariantFits type => "data did not match any variant of untagged enum " ++ type

/-- Whether the text is JSON as far as it was read, but of another shape than the wanted one. -/
def isAboutShape : Fault → Bool
  | .wrongType .. | .wrongValue .. | .wrongLength .. | .missingField _ | .duplicateField _ | .unknownField ..
  | .unknownVariant .. | .noVariantFits _ => true
  | _ => false

end Fault

/-- A step from a value into one of its parts. -/
inductive Step where
  | field (name : String)
  | item (index : Nat)
deriving DecidableEq, Inhabited

/-- A fault and the part of the value in which it was met. -/
structure Misread where
  path : List Step
  fault : Fault
deriving DecidableEq, Inhabited

namespace Misread

/-- A fault met in the value itself. -/
def here (fault : Fault) : Misread := ⟨[], fault⟩

/-- A fault met one step further in. -/
def under (step : Step) (m : Misread) : Misread :=
  { m with path := step :: m.path }

/-- A path in words: fields after dots, positions in brackets. -/
def pathText : List Step → String
  | [] => ""
  | .field name :: rest => name ++ more rest
  | .item index :: rest => "[" ++ toString index ++ "]" ++ more rest
where
  /-- The steps after the first one. -/
  more : List Step → String
    | [] => ""
    | .field name :: rest => "." ++ name ++ more rest
    | .item index :: rest => "[" ++ toString index ++ "]" ++ more rest

/-- The fault in words, after the path to it. -/
def message (m : Misread) : String :=
  match m.path with
  | [] => m.fault.message
  | path => pathText path ++ ": " ++ m.fault.message

end Misread
end Json
end Dimensional
