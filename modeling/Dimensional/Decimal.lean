/-!
# Decimal numbers

Numbers with a sign, a magnitude below `2^96` and up to 28 decimal places. The number of places is part of the value:
`1.50` is shown with two places. Results that need more digits are rounded, a half to the even neighbour, and results
that are still too great have no value. A product that is rounded down to zero may keep its sign.
-/

namespace Dimensional

/-- The natural number nearest to `n / d`, the even one of two. -/
def roundHalfEven (n d : Nat) : Nat :=
  let q := n / d
  let twice := 2 * (n % d)
  if d < twice ∨ (twice = d ∧ q % 2 = 1) then q + 1 else q

/-- The number `± magnitude / 10^scale`. -/
structure Decimal where
  negative : Bool
  magnitude : Nat
  scale : Nat
  magnitude_lt : magnitude < 79228162514264337593543950336
  scale_le : scale ≤ 28
deriving DecidableEq

namespace Decimal

/-- The magnitudes are below this. -/
def magnitudeBound : Nat := 79228162514264337593543950336

/-- The greatest number of decimal places. -/
def greatestScale : Nat := 28

/-- A number with a given sign, magnitude and scale, if they are possible ones. -/
def mk? (negative : Bool) (m s : Nat) : Option Decimal :=
  if h : m < magnitudeBound ∧ s ≤ greatestScale then some ⟨negative, m, s, h.1, h.2⟩ else none

def zero : Decimal := ⟨false, 0, 0, by decide, by decide⟩

instance : Inhabited Decimal := ⟨zero⟩

def one : Decimal := ⟨false, 1, 0, by decide, by decide⟩

def two : Decimal := ⟨false, 2, 0, by decide, by decide⟩

def isZero (a : Decimal) : Bool :=
  a.magnitude == 0

/-- The magnitude with the sign. -/
def coefficient (a : Decimal) : Int :=
  if a.negative then -Int.ofNat a.magnitude else Int.ofNat a.magnitude

/-- The number, without a sign if it is zero. -/
def plainZero (a : Decimal) : Decimal :=
  { a with negative := a.negative && !a.isZero }

/-- Whether two numbers are equal, whatever their places. -/
def equals (a b : Decimal) : Bool :=
  a.coefficient * Int.pow 10 b.scale == b.coefficient * Int.pow 10 a.scale

/-! ### Fitting -/

/-- Drop at least `drop` places of `± m / 10^s`, more if the magnitude is still too great. -/
def fitFrom (negative : Bool) (m s drop : Nat) : Nat → Option Decimal
  | 0 => none
  | tries + 1 =>
    if s < drop then none
    else
      match mk? negative (roundHalfEven m (Nat.pow 10 drop)) (s - drop) with
      | some a => some a
      | none => fitFrom negative m s (drop + 1) tries

/-- The number nearest to `± m / 10^s` that has as many of its places as possible. -/
def fit (negative : Bool) (m s : Nat) : Option Decimal :=
  fitFrom negative m s (s - greatestScale) (s + 1)

/-! ### Sums and products -/

/-- The number with the other sign; zero stays as it is. -/
def neg (a : Decimal) : Decimal :=
  if a.isZero then a else { a with negative := !a.negative }

/-- The sum. A zero adds nothing, not even places, unless it is added to. -/
def add (a b : Decimal) : Option Decimal :=
  if a.isZero then some b
  else if b.isZero then some a
  else
    let s := max a.scale b.scale
    let c := a.coefficient * Int.pow 10 (s - a.scale) + b.coefficient * Int.pow 10 (s - b.scale)
    fit (c < 0) c.natAbs s

def sub (a b : Decimal) : Option Decimal :=
  a.add b.neg

/-- Whether a magnitude has at most 32 bits. -/
def isShort (a : Decimal) : Bool :=
  a.magnitude < Nat.pow 2 32

/-- The product. Of two short numbers with more than 47 places nothing is left, and a product of short numbers that is
rounded down to zero has no sign. -/
def mul (a b : Decimal) : Option Decimal :=
  let product := fit (a.negative != b.negative) (a.magnitude * b.magnitude) (a.scale + b.scale)
  if a.isZero || b.isZero then some zero
  else if a.isShort && b.isShort then
    if 47 < a.scale + b.scale then some zero else product.map plainZero
  else product

/-! ### Quotients -/

/-- A quotient under way: `(quotient + remainder / divisor) / 10^scale`. -/
structure Division where
  quotient : Nat
  remainder : Nat
  scale : Int
  /-- Whether there was a remainder, so that zeros at the end are taken off. -/
  inexact : Bool

/-- The greatest number of places, at most `most`, by which a quotient can grow below the bound. -/
def growth (quotient : Nat) : Nat → Nat
  | 0 => 0
  | most + 1 => if quotient * Nat.pow 10 (most + 1) < magnitudeBound then most + 1 else growth quotient most

/-- A quotient that reached the bound, with one place less; `rest` tells whether something lies beyond its digits. -/
def carry (quotient : Nat) (scale : Int) (rest : Bool) : Option (Nat × Int) :=
  if scale ≤ 0 then none
  else
    let q := quotient / 10
    let digit := quotient % 10
    some (if 5 < digit ∨ (digit = 5 ∧ (rest ∨ q % 2 = 1)) then q + 1 else q, scale - 1)

/-- Append up to nine digits at a time until the division comes out even or there is no room for more; the last digit is
rounded then. -/
def digits (divisor : Nat) (d : Division) : Nat → Option (Nat × Int × Bool)
  | 0 => none
  | rounds + 1 =>
    let grow (p : Nat) (inexact : Bool) : Option (Nat × Int × Bool) :=
      let r := d.remainder * Nat.pow 10 p
      let q := d.quotient * Nat.pow 10 p + r / divisor
      let scale := d.scale + p
      if q < magnitudeBound then digits divisor ⟨q, r % divisor, scale, inexact⟩ rounds
      else (carry q scale (r % divisor != 0)).map fun c => (c.1, c.2, inexact)
    if d.remainder = 0 then
      if 0 ≤ d.scale then some (d.quotient, d.scale, d.inexact)
      else
        let p := min 9 d.scale.natAbs
        if d.quotient * Nat.pow 10 p < magnitudeBound then grow p d.inexact else none
    else
      let p := if d.scale = 28 then 0 else growth d.quotient (min 9 (28 - d.scale).toNat)
      if p < 9 ∧ p + d.scale < 0 then none
      else if p = 0 then
        let twice := 2 * d.remainder
        let q := if divisor < twice ∨ (twice = divisor ∧ d.quotient % 2 = 1) then d.quotient + 1 else d.quotient
        if q < magnitudeBound then some (q, d.scale, true)
        else (carry q d.scale true).map fun c => (c.1, c.2, true)
      else grow p true

/-- Drop `k` zeros from the end of a quotient, if it has so many behind its point. -/
def dropZeros (k : Nat) (q : Nat × Nat) : Nat × Nat :=
  if k ≤ q.2 ∧ q.1 % Nat.pow 10 k = 0 then (q.1 / Nat.pow 10 k, q.2 - k) else q

/-- Drop eight zeros at a time as long as the last 32 bits are zero. -/
def dropEights : Nat → Nat × Nat → Nat × Nat
  | 0, q => q
  | rounds + 1, q =>
    if q.1 % Nat.pow 2 32 = 0 ∧ 8 ≤ q.2 ∧ q.1 % Nat.pow 10 8 = 0 then dropEights rounds (q.1 / Nat.pow 10 8, q.2 - 8)
    else q

/-- Drop zeros from the end of a quotient: eights as above, then four, two and one. -/
def strip (q : Nat × Nat) : Nat × Nat :=
  dropZeros 1 (dropZeros 2 (dropZeros 4 (dropEights 4 q)))

/-- The quotient. A division that does not come out even within the places is rounded; a zero has no sign. -/
def div (a b : Decimal) : Option Decimal :=
  if b.isZero then none
  else if a.isZero then some zero
  else
    let start : Division :=
      ⟨a.magnitude / b.magnitude, a.magnitude % b.magnitude, Int.ofNat a.scale - Int.ofNat b.scale, false⟩
    (digits b.magnitude start 64).bind fun (q, scale, inexact) =>
      let (q, s) := if inexact then strip (q, scale.toNat) else (q, scale.toNat)
      (mk? (a.negative != b.negative) q s).map plainZero

/-! ### Square roots -/

/-- Half of the sum of a guess and the number divided by it. -/
def betterGuess (a x : Decimal) : Option Decimal := do
  let q ← a.div x
  let sum ← x.add q
  sum.div two

/-- Better and better guesses until two in a row are equal; at most a thousand are made. -/
def guesses (a last x : Decimal) : Nat → Decimal
  | 0 => x
  | rounds + 1 =>
    if last.equals x then x
    else
      match betterGuess a x with
      | some y => guesses a x y rounds
      | none => x

/-- The square root by Newton's iteration, starting from half of the number; none of a number with a sign, be it
zero. -/
def sqrt (a : Decimal) : Option Decimal :=
  if a.negative then none
  else if a.isZero then some zero
  else
    let half := (a.div two).getD a
    let x := if half.isZero then a else half
    some (guesses a ((x.add one).getD zero) x 1000)

end Decimal
end Dimensional
