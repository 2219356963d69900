import Dimensional.Json.Binary64

/-!
# JSON values

JSON values and their texts: compact, and laid out with two blanks for each level.
-/

namespace Dimensional

/-- A number of a JSON text: an integer of 64 bits, with or without a sign, or a binary64 number. -/
inductive Json.Number where
  | integer (n : Int)
  | real (x : Binary64)
deriving DecidableEq, Inhabited

/-- A JSON value. An object keeps its members as they were written. -/
inductive Json where
  | null
  | bool (value : Bool)
  | number (n : Json.Number)
  | string (text : String)
  | list (items : List Json)
  | object (members : List (String × Json))
deriving Inhabited

namespace Json

/-- An integer as a JSON value. -/
def int (n : Int) : Json := .number (.integer n)

/-- A natural number as a JSON value. -/
def nat (n : Nat) : Json := .int n

/-! ### Texts -/

def Number.text : Number → String
  | .integer n => toString n
  | .real x => x.scientificText

/-- The two hexadecimal digits of a number below 256. -/
def twoHexDigits (n : Nat) : List Char :=
  [Nat.digitChar (n / 16), Nat.digitChar (n % 16)]

/-- A character inside a JSON string. -/
def stringChar (c : Char) : List Char :=
  match c with
  | '"' => ['\\', '"']
  | '\\' => ['\\', '\\']
  | '\x08' => ['\\', 'b']
  | '\x0c' => ['\\', 'f']
  | '\n' => ['\\', 'n']
  | '\r' => ['\\', 'r']
  | '\t' => ['\\', 't']
  | c => if c.toNat < 0x20 then ['\\', 'u', '0', '0'] ++ twoHexDigits c.toNat else [c]

/-- A JSON string with its quotes. -/
def quote (text : String) : String :=
  String.ofList ('"' :: text.toList.flatMap stringChar ++ ['"'])

mutual

/-- The text of a value without blanks. -/
def compact : Json → String
  | .null => "null"
  | .bool b => if b then "true" else "false"
  | .number n => n.text
  | .string text => quote text
  | .list items => "[" ++ ",".intercalate (compactItems items) ++ "]"
  | .object members => "\x7b" ++ ",".intercalate (compactMembers members) ++ "\x7d"

def compactItems : List Json → List String
  | [] => []
  | item :: rest => compact item :: compactItems rest

def compactMembers : List (String × Json) → List String
  | [] => []
  | (name, value) :: rest => (quote name ++ ":" ++ compact value) :: compactMembers rest

end

/-- The start of a line at a level. -/
def indent (level : Nat) : String :=
  String.ofList (List.replicate (2 * level) ' ')

/-- Parts on lines of their own between brackets that stand at a level. -/
def block (opening closing : String) (level : Nat) (parts : List String) : String :=
  if parts.isEmpty then opening ++ closing
  else
    opening ++ "\n" ++ ",\n".intercalate (parts.map fun part => indent (level + 1) ++ part) ++ "\n" ++
      indent level ++ closing

mutual

/-- The text of a value that starts at a level, with a line for each of its parts. -/
def prettyAt (level : Nat) : Json → String
  | .null => "null"
  | .bool b => if b then "true" else "false"
  | .number n => n.text
  | .string text => quote text
  | .list items => block "[" "]" level (prettyItems (level + 1) items)
  | .object members => block "\x7b" "\x7d" level (prettyMembers (level + 1) members)

def prettyItems (level : Nat) : List Json → List String
  | [] => []
  | item :: rest => prettyAt level item :: prettyItems level rest

def prettyMembers (level : Nat) : List (String × Json) → List String
  | [] => []
  | (name, value) :: rest => (quote name ++ ": " ++ prettyAt level value) :: prettyMembers level rest

end

/-- The text of a value with a line for each of its parts. -/
def pretty (value : Json) : String :=
  value.prettyAt 0

end Json
end Dimensional
