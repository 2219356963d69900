import Dimensional.Text.Superscript

/-!
# Tokens

A unit expression is read as names, digit runs and single symbols with blanks between them. `scan` never fails: from
each position on it takes the longest run that the character there starts, and makes a token of it unless it is a blank.
-/

namespace Dimensional

/-! ### Places in a source -/

/-- The characters of a source from `start` up to, and without, `stop`. -/
@[ext]
structure Span where
  start : Nat
  stop : Nat
deriving DecidableEq, Inhabited

namespace Span

/-- The place between two characters, before the one at `position`. -/
def insertion (position : Nat) : Span := ⟨position, position⟩

def isEmpty (s : Span) : Bool :=
  s.start == s.stop

/-- The number of characters; 0 for a span that stops before it starts. -/
def length (s : Span) : Nat :=
  s.stop - s.start

instance : ToString Span := ⟨fun s => toString s.start ++ ".." ++ toString s.stop⟩

/-- The part of a text that a span covers. -/
def slice (s : Span) (text : List Char) : List Char :=
  (text.drop s.start).take s.length

end Span

/-! ### Blanks -/

/-- The code points with Unicode's `White_Space` property. -/
def isBlank (c : Char) : Bool :=
  let n := c.toNat
  (9 ≤ n && n ≤ 13) || n == 0x20 || n == 0x85 || n == 0xA0 || n == 0x1680 ||
    (0x2000 ≤ n && n ≤ 0x200A) || n == 0x2028 || n == 0x2029 || n == 0x202F || n == 0x205F || n == 0x3000

/-- Drop the blanks at the end of a run of characters. -/
def dropBlankEnd (cs : List Char) : List Char :=
  (cs.reverse.dropWhile isBlank).reverse

/-- Drop the blanks at both ends of a run of characters. -/
def trimBlank (cs : List Char) : List Char :=
  dropBlankEnd (cs.dropWhile isBlank)

/-! ### Tokens -/

/-- What a token says. -/
inductive Lexeme where
  | name (text : String)
  | natural (value : Nat)
  | superscript (value : Nat)
  | minus
  | superscriptMinus
  | caret
  | star
  | slash
deriving DecidableEq, Inhabited

/-- A lexeme and the place where it was read. -/
structure Token where
  lexeme : Lexeme
  span : Span
deriving DecidableEq, Inhabited

/-! ### Classes of characters -/

/-- The classes of characters. -/
inductive CharClass where
  | digit
  | superscriptDigit
  | symbol
  | blank
  | identifier
deriving DecidableEq

/-- The lexeme of a character that stands for itself. -/
def Lexeme.ofSymbol? : Char → Option Lexeme
  | '-' => some .minus
  | '^' => some .caret
  | '*' => some .star
  | '/' => some .slash
  | '⁻' => some .superscriptMinus
  | _ => none

def CharClass.of (c : Char) : CharClass :=
  if c.isDigit then .digit
  else if (Superscript.digit? c).isSome then .superscriptDigit
  else if (Lexeme.ofSymbol? c).isSome then .symbol
  else if isBlank c then .blank
  else .identifier

/-- Whether the run that a character starts goes on with another one. Symbols and blanks stand alone. -/
def continuesRun (c d : Char) : Bool :=
  match CharClass.of c with
  | .digit => CharClass.of d == .digit
  | .superscriptDigit => (Superscript.digit? d).isSome
  | .symbol => false
  | .blank => false
  | .identifier => CharClass.of d == .identifier

/-! ### Numerals -/

/-- The greatest value of a digit run; longer runs keep it. -/
def greatestNatural : Nat := 18446744073709551615

/-- The value of a run of digits, at most `greatestNatural`. -/
def numeralValue (digits : List Nat) : Nat :=
  digits.foldl (fun value d => min (10 * value + d) greatestNatural) 0

/-- The value of an ASCII digit. -/
def digitValue (c : Char) : Nat :=
  c.toNat - '0'.toNat

/-! ### Scanning -/

/-- The lexeme of a run, none for a blank. -/
def Lexeme.ofRun? : List Char → Option Lexeme
  | [] => none
  | c :: rest =>
    match CharClass.of c with
    | .digit => some (.natural (numeralValue ((c :: rest).map digitValue)))
    | .superscriptDigit => some (.superscript (numeralValue ((c :: rest).filterMap Superscript.digit?)))
    | .symbol => Lexeme.ofSymbol? c
    | .blank => none
    | .identifier => some (.name (String.ofList (c :: rest)))

/-- The tokens of a text from a position on. -/
def scanFrom (position : Nat) : List Char → List Token
  | [] => []
  | c :: rest =>
    let run := c :: rest.takeWhile (continuesRun c)
    let next := position + run.length
    match Lexeme.ofRun? run with
    | none => scanFrom next (rest.dropWhile (continuesRun c))
    | some lexeme => ⟨lexeme, position, next⟩ :: scanFrom next (rest.dropWhile (continuesRun c))
termination_by chars => chars.length
decreasing_by all_goals exact Nat.lt_succ_of_le (List.dropWhile_sublist _).length_le

/-- The tokens of a text. -/
def scan (source : String) : List Token :=
  scanFrom 0 source.toList

/-! ### Surfaces -/

/-- The digits of a number, with zeros in front up to a width. -/
def paddedDigits (width n : Nat) : List Char :=
  let digits := Nat.toDigits 10 n
  List.replicate (width - digits.length) '0' ++ digits

/-- A token as it would be written. A number of ASCII digits fills its span with leading zeros. -/
def Token.surface (t : Token) : String :=
  match t.lexeme with
  | .name text => text
  | .natural n => String.ofList (paddedDigits t.span.length n)
  | .superscript n => Superscript.ofNat n
  | .minus => "-"
  | .superscriptMinus => "⁻"
  | .caret => "^"
  | .star => "*"
  | .slash => "/"

end Dimensional
