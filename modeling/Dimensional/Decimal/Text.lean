import Dimensional.Decimal

/-!
# Texts of decimal numbers

A decimal number is shown with exactly its places. It is read from digits with an optional sign and point, or with an
exponent after them; digits beyond the places that fit are rounded away, a half away from zero.
-/

namespace Dimensional
namespace Decimal

/-- The number with all its places. -/
def text (a : Decimal) : String :=
  let ds := Nat.toDigits 10 a.magnitude
  let padded := List.replicate (a.scale + 1 - ds.length) '0' ++ ds
  let whole := padded.take (padded.length - a.scale)
  let places := padded.drop (padded.length - a.scale)
  (if a.negative then "-" else "") ++ String.ofList whole ++
    if a.scale = 0 then "" else "." ++ String.ofList places

instance : ToString Decimal := ⟨text⟩

/-! ### Numerals -/

/-- The value of a digit. -/
def digitValue (c : Char) : Nat :=
  c.toNat - '0'.toNat

/-- The value of a run of digits behind digits that stand for `n`. -/
def appendDigits (n : Nat) (digits : List Char) : Nat :=
  digits.foldl (fun n c => 10 * n + digitValue c) n

/-- The digits of a number without an exponent, in front of its point and behind it. -/
structure Numeral where
  negative : Bool
  whole : List Char
  places : List Char
deriving DecidableEq, Inhabited

namespace Numeral

/-- A sign that may stand in front of a number. -/
def splitSign (cs : List Char) : Bool × List Char :=
  match cs with
  | '-' :: rest => (true, rest)
  | '+' :: rest => (false, rest)
  | cs => (false, cs)

/-- The numeral of a text: digits with at most one point. Underlines that do not stand in front of the first digit are
left out. -/
def ofText? (text : List Char) : Option Numeral :=
  let (negative, cs) := splitSign text
  if (cs.takeWhile fun c => !c.isDigit).contains '_' then none
  else
    let cs := cs.filter (· != '_')
    let whole := cs.takeWhile (· != '.')
    let places := (cs.dropWhile (· != '.')).drop 1
    if (whole ++ places).isEmpty || !(whole ++ places).all Char.isDigit then none
    else some ⟨negative, whole, places⟩

/-- Append digits to `m / 10^s` as long as they fit. The first digit that does not fit rounds the number. -/
def appendPlaces (m s : Nat) : List Char → Option (Nat × Nat)
  | [] => some (m, s)
  | c :: rest =>
    if s < greatestScale ∧ 10 * m + digitValue c < magnitudeBound then
      appendPlaces (10 * m + digitValue c) (s + 1) rest
    else
      let rounded := if 5 ≤ digitValue c then m + 1 else m
      if rounded < magnitudeBound then some (rounded, s)
      else if s = 0 then none
      else some ((rounded + 4) / 10, s - 1)

/-- The number that a numeral stands for. A whole part that is too great has none. -/
def value (n : Numeral) : Option Decimal := do
  let whole := appendDigits 0 n.whole
  if magnitudeBound ≤ whole then none
  else
    let (m, s) ← appendPlaces whole 0 n.places
    (mk? n.negative m s).map plainZero

end Numeral

/-- Read a number without an exponent. -/
def ofPlainText? (text : List Char) : Option Decimal :=
  (Numeral.ofText? text).bind Numeral.value

/-! ### Exponents -/

/-- A natural number below `2^32` in digits, with an optional plus sign. -/
def exponentOfText? (text : List Char) : Option Nat :=
  let digits :=
    match text with
    | '+' :: rest => rest
    | text => text
  if digits.isEmpty || !digits.all Char.isDigit then none
  else
    let n := appendDigits 0 digits
    if n < Nat.pow 2 32 then some n else none

/-- The number without zeros at the end of its places. -/
def normalize (a : Decimal) : Decimal :=
  if a.isZero then zero
  else
    let zeros := min a.scale ((Nat.toDigits 10 a.magnitude).reverse.takeWhile (· == '0')).length
    (mk? a.negative (a.magnitude / Nat.pow 10 zeros) (a.scale - zeros)).getD a

/-- The number over `10^e`. Places that do not fit are rounded away, a half away from zero, and the sign is kept. -/
def moveLeft (a : Decimal) (e : Nat) : Option Decimal :=
  if greatestScale < e then none
  else if a.scale + e ≤ greatestScale then mk? a.negative a.magnitude (a.scale + e)
  else
    let unit := Nat.pow 10 (a.scale + e - greatestScale)
    mk? a.negative ((a.magnitude + unit / 2) / unit) greatestScale

/-- The number times `10^e`. Beyond its places the zeros at their end are dropped. -/
def moveRight (a : Decimal) (e : Nat) : Option Decimal :=
  if e ≤ a.scale then mk? a.negative a.magnitude (a.scale - e)
  else if greatestScale < e then none
  else if a.isZero then some zero
  else (fit a.negative (a.magnitude * Nat.pow 10 e) a.scale).map normalize

/-- Read a number with an exponent. -/
def ofScientificText? (text : List Char) : Option Decimal :=
  let isMark (c : Char) : Bool := c == 'e' || c == 'E'
  match text.dropWhile (fun c => !isMark c) with
  | [] => none
  | _ :: exponent => do
    let a ← ofPlainText? (text.takeWhile fun c => !isMark c)
    match exponent with
    | '-' :: digits => (exponentOfText? digits).bind a.moveLeft
    | digits => (exponentOfText? digits).bind a.moveRight

/-- Read a number. -/
def ofText? (text : String) : Option Decimal :=
  let cs := text.toList
  (ofPlainText? cs).orElse fun () => ofScientificText? cs

end Decimal
end Dimensional
