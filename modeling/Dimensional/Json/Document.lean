import Dimensional.Json.Fault
import Dimensional.Text.Utf8

/-!
# JSON documents

What a JSON text says, up to the place where it stops being JSON. `Document.readStart` never fails: where the text
breaks off, the document holds a break in place of the part that could not be read. So the text is taken apart once, and
whoever decodes the document meets its parts and its break in the order of the text.

Numbers and strings are kept as they were written: a number may be too great, and a string may hold a lone half of a
surrogate pair or bytes that are no character. Neither matters to one who only skips them.
-/

namespace Dimensional
namespace Json

/-- A place where a text stops being JSON: the fault for one who reads the value there, and for one who skips it. -/
structure Break where
  onRead : Fault
  onSkip : Fault
deriving DecidableEq, Inhabited

namespace Break

/-- A break with one fault for all. -/
def always (f : Fault) : Break := ⟨f, f⟩

end Break

/-- A number as written. -/
structure NumberText where
  negative : Bool
  /-- The digits in front of the point. -/
  whole : List Nat
  /-- The digits after the point. -/
  fraction : List Nat
  /-- The exponent: whether it is negative, and its digits. -/
  exponent : Option (Bool × List Nat)
deriving DecidableEq, Inhabited

/-- A part of a string as written. -/
inductive Piece where
  /-- A character, or an escape that stands for one. -/
  | char (c : Char)
  /-- An escape with a code unit of 16 bits. -/
  | unit (code : Nat)
  /-- Bytes that belong to no character. -/
  | stray
deriving DecidableEq, Inhabited

/-- How a string ends. -/
inductive StringEnd where
  | quote
  | endOfText
  | controlCharacter
  | unknownEscape
  | badHexEscape
deriving DecidableEq, Inhabited

/-- A string as written. -/
structure StringText where
  pieces : List Piece
  ending : StringEnd
deriving DecidableEq, Inhabited

/-- What a JSON text says. -/
inductive Document where
  | null
  | bool (value : Bool)
  | number (text : NumberText)
  | string (text : StringText)
  /-- The items of a list, and the break after them unless the list is closed. -/
  | list (items : List Document) (ending : Option Break)
  /-- The members of an object, and the break after them unless the object is closed. -/
  | object (members : List (StringText × Document)) (ending : Option Break)
  /-- A value in which the text breaks off. -/
  | broken (place : Break)
  /-- The end of the text where a value should begin. -/
  | absent
  /-- A break in front of a value, between its key and the colon. -/
  | unreached (fault : Fault)
deriving Inhabited

namespace Document

/-! ### Characters -/

/-- The four blanks of JSON. -/
def isSpace : Glyph → Bool
  | .char c => c == ' ' || c == '\t' || c == '\n' || c == '\r'
  | .stray _ => false

def skipSpace (text : List Glyph) : List Glyph :=
  text.dropWhile isSpace

/-- The value of a hexadecimal digit. -/
def hexDigit? : Glyph → Option Nat
  | .char c =>
    if '0' ≤ c ∧ c ≤ '9' then some (c.toNat - 0x30)
    else if 'a' ≤ c ∧ c ≤ 'f' then some (c.toNat - 0x57)
    else if 'A' ≤ c ∧ c ≤ 'F' then some (c.toNat - 0x37)
    else none
  | .stray _ => none

def isDigit : Glyph → Bool
  | .char c => c.isDigit
  | .stray _ => false

/-- The value of a decimal digit. -/
def digit : Glyph → Nat
  | .char c => c.toNat - 0x30
  | .stray _ => 0

/-! ### Strings -/

/-- The four hexadecimal digits of an escape. -/
def hexEscape? : List Glyph → Option Nat
  | [a, b, c, d] =>
    match hexDigit? a, hexDigit? b, hexDigit? c, hexDigit? d with
    | some a, some b, some c, some d => some (((a * 16 + b) * 16 + c) * 16 + d)
    | _, _, _, _ => none
  | _ => none

/-- The character of an escape with one letter. -/
def escape? : Glyph → Option Char
  | .char '"' => some '"'
  | .char '\\' => some '\\'
  | .char '/' => some '/'
  | .char 'b' => some '\x08'
  | .char 'f' => some '\x0c'
  | .char 'n' => some '\n'
  | .char 'r' => some '\r'
  | .char 't' => some '\t'
  | _ => none

/-- Read a string behind its opening quote; the pieces read so far are given in reverse. The rest of the text is
returned if the string is closed. -/
def readPieces (read : List Piece) : List Glyph → StringText × Option (List Glyph)
  | [] => (⟨read.reverse, .endOfText⟩, none)
  | .char '"' :: rest => (⟨read.reverse, .quote⟩, some rest)
  | [.char '\\'] => (⟨read.reverse, .endOfText⟩, none)
  | .char '\\' :: .char 'u' :: a :: b :: c :: d :: rest =>
    match hexEscape? [a, b, c, d] with
    | some code => readPieces (.unit code :: read) rest
    | none => (⟨read.reverse, .badHexEscape⟩, none)
  | .char '\\' :: e :: rest =>
    if e = .char 'u' then
      -- Fewer than four characters are left; they may still be four bytes.
      (⟨read.reverse, if Glyph.sizeOfAll rest < 4 then .endOfText else .badHexEscape⟩, none)
    else
      match escape? e with
      | some c => readPieces (.char c :: read) rest
      | none => (⟨read.reverse, .unknownEscape⟩, none)
  | .char c :: rest =>
    if c.toNat < 0x20 then (⟨read.reverse, .controlCharacter⟩, none)
    else readPieces (.char c :: read) rest
  | .stray _ :: rest => readPieces (.stray :: read) rest

/-! ### Numbers -/

/-- A number that breaks off: at the end of the text, or at a character that cannot follow. -/
def numberBreak (rest : List Glyph) : Break :=
  if rest.isEmpty then ⟨.endInValue, .invalidNumber⟩ else .always .invalidNumber

/-- Read the exponent of a number, if there is one. -/
def readExponent (gs : List Glyph) : Except Break (Option (Bool × List Nat) × List Glyph) :=
  match gs with
  | g :: rest =>
    if g = .char 'e' ∨ g = .char 'E' then
      let (negative, rest) :=
        match rest with
        | .char '+' :: rest => (false, rest)
        | .char '-' :: rest => (true, rest)
        | rest => (false, rest)
      let digits := rest.takeWhile isDigit
      let rest := rest.dropWhile isDigit
      if digits.isEmpty then .error (numberBreak rest)
      else .ok (some (negative, digits.map digit), rest)
    else .ok (none, gs)
  | [] => .ok (none, gs)

/-- Read the fraction of a number, if there is one. -/
def readFraction (gs : List Glyph) : Except Break (List Nat × List Glyph) :=
  match gs with
  | .char '.' :: rest =>
    let digits := rest.takeWhile isDigit
    let rest := rest.dropWhile isDigit
    if digits.isEmpty then .error (numberBreak rest) else .ok (digits.map digit, rest)
  | gs => .ok ([], gs)

/-- Read the digits in front of the point: a single 0, or digits without a 0 in front. -/
def readWhole (gs : List Glyph) : Except Break (List Nat × List Glyph) :=
  let digits := gs.takeWhile isDigit
  let rest := gs.dropWhile isDigit
  match digits with
  | [] => .error (numberBreak rest)
  | .char '0' :: _ :: _ => .error (.always .invalidNumber)
  | digits => .ok (digits.map digit, rest)

/-- Read a number. -/
def readNumber (gs : List Glyph) : Except Break (NumberText × List Glyph) := do
  let (negative, gs) :=
    match gs with
    | .char '-' :: rest => (true, rest)
    | gs => (false, gs)
  let (whole, gs) ← readWhole gs
  let (fraction, gs) ← readFraction gs
  let (exponent, gs) ← readExponent gs
  return (⟨negative, whole, fraction, exponent⟩, gs)

/-! ### Values -/

/-- Read the rest of a word whose first letter decided which one it is. -/
def readWord (value : Document) : List Char → List Glyph → Document × Option (List Glyph)
  | [], gs => (value, some gs)
  | _, [] => (.broken (.always .endInValue), none)
  | w :: word, g :: gs => if g = .char w then readWord value word gs else (.broken (.always .wordExpected), none)

mutual

/-- Read a value. The rest of the text is returned unless the value holds a break. A glyph takes at most two steps, so
the steps that `readStart` allows are never used up. -/
def readValue : Nat → List Glyph → Document × Option (List Glyph)
  | 0, _ => (.absent, none)
  | steps + 1, gs =>
    match skipSpace gs with
    | [] => (.absent, none)
    | .char 'n' :: rest => readWord .null ['u', 'l', 'l'] rest
    | .char 't' :: rest => readWord (.bool true) ['r', 'u', 'e'] rest
    | .char 'f' :: rest => readWord (.bool false) ['a', 'l', 's', 'e'] rest
    | .char '"' :: rest =>
      let (text, rest) := readPieces [] rest
      (.string text, rest)
    | .char '[' :: rest =>
      match skipSpace rest with
      | [] => (.list [] (some (.always .endInList)), none)
      | .char ']' :: rest => (.list [] none, some rest)
      | rest =>
        let (items, ending, rest) := readItems steps rest
        (.list items ending, rest)
    | .char '\x7b' :: rest =>
      match skipSpace rest with
      | [] => (.object [] (some (.always .endInObject)), none)
      | .char '\x7d' :: rest => (.object [] none, some rest)
      | .char '"' :: rest =>
        let (members, ending, rest) := readMembers steps rest
        (.object members ending, rest)
      | _ => (.object [] (some (.always .keyNotString)), none)
    | g :: rest =>
      if g = .char '-' ∨ isDigit g then
        match readNumber (g :: rest) with
        | .ok (n, rest) => (.number n, some rest)
        | .error b => (.broken b, none)
      else (.broken (.always .valueExpected), none)

/-- Read the items of a list, at least one of them. -/
def readItems : Nat → List Glyph → List Document × Option Break × Option (List Glyph)
  | 0, _ => ([], some (.always .endInList), none)
  | steps + 1, gs =>
    match readValue steps gs with
    | (item, none) => ([item], none, none)
    | (item, some rest) =>
      match skipSpace rest with
      | [] => ([item], some (.always .endInList), none)
      | .char ']' :: rest => ([item], none, some rest)
      | .char ',' :: rest =>
        match skipSpace rest with
        | [] => ([item], some (.always .endInValue), none)
        | .char ']' :: _ => ([item], some ⟨.trailingComma, .valueExpected⟩, none)
        | rest =>
          let (items, ending, rest) := readItems steps rest
          (item :: items, ending, rest)
      | _ => ([item], some (.always .listCommaExpected), none)

/-- Read the members of an object, at least one of them, behind the opening quote of the first key. -/
def readMembers : Nat → List Glyph → List (StringText × Document) × Option Break × Option (List Glyph)
  | 0, _ => ([], some (.always .endInObject), none)
  | steps + 1, gs =>
    match readPieces [] gs with
    | (key, none) => ([(key, .null)], none, none)
    | (key, some rest) =>
      match skipSpace rest with
      | [] => ([(key, .unreached .endInObject)], none, none)
      | .char ':' :: rest =>
        match readValue steps rest with
        | (value, none) => ([(key, value)], none, none)
        | (value, some rest) =>
          match skipSpace rest with
          | [] => ([(key, value)], some (.always .endInObject), none)
          | .char '\x7d' :: rest => ([(key, value)], none, some rest)
          | .char ',' :: rest =>
            match skipSpace rest with
            | [] => ([(key, value)], some ⟨.endInValue, .endInObject⟩, none)
            | .char '"' :: rest =>
              let (members, ending, rest) := readMembers steps rest
              ((key, value) :: members, ending, rest)
            | .char '\x7d' :: _ => ([(key, value)], some ⟨.trailingComma, .keyNotString⟩, none)
            | _ => ([(key, value)], some (.always .keyNotString), none)
          | _ => ([(key, value)], some (.always .objectCommaExpected), none)
      | _ => ([(key, .unreached .colonExpected)], none, none)

end

/-- The document that a text starts with, and the rest of the text unless it breaks off. -/
def readStart (text : List Glyph) : Document × Option (List Glyph) :=
  readValue (2 * text.length + 2) text

end Document
end Json
end Dimensional
