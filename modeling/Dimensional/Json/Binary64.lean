import Dimensional.Decimal

/-!
# Binary64 numbers

The finite numbers of the IEEE 754 format binary64, as far as number literals need them: rounding a ratio to the nearest
number, and the fewest decimal digits that round back to a number.
-/

namespace Dimensional

/-- A finite binary64 number: `± mantissa · 2^exponent`. -/
structure Binary64 where
  negative : Bool
  mantissa : Nat
  exponent : Int
deriving DecidableEq, Inhabited

namespace Binary64

/-- The greatest exponent of a finite number with a mantissa of 53 bits. -/
def greatestExponent : Int := 971

/-- The least exponent; mantissas below 53 bits occur only with it. -/
def leastExponent : Int := -1074

/-! ### Rounding -/

/-- The number nearest to the ratio `n / d`, none when it is too great. -/
def ofRatio? (negative : Bool) (n d : Nat) : Option Binary64 :=
  if n = 0 then some ⟨negative, 0, 0⟩
  else
    let k : Int := Int.ofNat n.log2 - Int.ofNat d.log2
    let top := if n * Nat.pow 2 (-k).toNat < d * Nat.pow 2 k.toNat then k - 1 else k
    let e := max (top - 52) leastExponent
    let m := roundHalfEven (n * Nat.pow 2 (-e).toNat) (d * Nat.pow 2 e.toNat)
    let carried := m = Nat.pow 2 53
    let m' := if carried then Nat.pow 2 52 else m
    let e' := if carried then e + 1 else e
    if greatestExponent < e' then none else some ⟨negative, m', e'⟩

/-- A number as a ratio of natural numbers, without its sign. -/
def ratio (x : Binary64) : Nat × Nat :=
  (x.mantissa * Nat.pow 2 x.exponent.toNat, Nat.pow 2 (-x.exponent).toNat)

/-- The number nearest to `10^k`, for `k ≤ 308`. -/
def powerOfTen (k : Nat) : Binary64 :=
  (ofRatio? false (Nat.pow 10 k) 1).getD default

/-- The product of two numbers, rounded; none when it is too great. -/
def mul? (x y : Binary64) : Option Binary64 :=
  ofRatio? (x.negative != y.negative) (x.ratio.1 * y.ratio.1) (x.ratio.2 * y.ratio.2)

/-- The quotient of two numbers, rounded; none when it is too great. -/
def div? (x y : Binary64) : Option Binary64 :=
  ofRatio? (x.negative != y.negative) (x.ratio.1 * y.ratio.2) (x.ratio.2 * y.ratio.1)

/-- The number for `significand · 10^exponent`, by one rounding of the significand and one multiplication or division
by a rounded power of ten; beyond `10^308` the division is done in parts. -/
def ofScientific? (negative : Bool) (significand : Nat) (exponent : Int) : Option Binary64 :=
  (ofRatio? negative significand 1).bind fun x => scale x exponent 16
where
  /-- Scale by a power of ten. A division in parts reaches 0 long before the parts are used up. -/
  scale (x : Binary64) (exponent : Int) : Nat → Option Binary64
    | 0 => some { x with mantissa := 0, exponent := 0 }
    | parts + 1 =>
      if exponent.natAbs ≤ 308 then
        if 0 ≤ exponent then x.mul? (powerOfTen exponent.natAbs) else x.div? (powerOfTen exponent.natAbs)
      else if x.mantissa = 0 then some x
      else if 0 ≤ exponent then none
      else (x.div? (powerOfTen 308)).bind fun y => scale y (exponent + 308) parts

/-! ### Shortest digits -/

/-- A decimal number: `digits · 10^exponent`. -/
structure Digits where
  digits : Nat
  exponent : Int
deriving DecidableEq, Inhabited

/-- Whether `n / d ≤ c · 10^k`, all over a common denominator. -/
def ratioLe (n d c : Nat) (k : Int) : Bool :=
  n * Nat.pow 10 (-k).toNat ≤ c * Nat.pow 10 k.toNat * d

/-- Whether `c · 10^k ≤ n / d`. -/
def leRatio (c : Nat) (k : Int) (n d : Nat) : Bool :=
  c * Nat.pow 10 k.toNat * d ≤ n * Nat.pow 10 (-k).toNat

/-- The decimal exponent of the first digit of `n / d`, searched upward from `k`. -/
def leadingExponent (n d : Nat) (k : Int) : Nat → Int
  | 0 => k
  | fuel + 1 => if leRatio 1 (k + 1) n d then leadingExponent n d (k + 1) fuel else k

/-- Which of two decimal numbers is taken when a number lies halfway between them. -/
inductive Tie where
  | toEven
  | up
deriving DecidableEq, Inhabited

/-- Whether `c + 1` is nearer than `c` to `c + part / whole`; `tie` decides in the middle. -/
def Tie.goesUp (tie : Tie) (c part whole : Nat) : Bool :=
  match compare (2 * part) whole with
  | .lt => false
  | .gt => true
  | .eq => tie == .up || c % 2 == 1

/-- The fewest decimal digits that round to a number other than 0, the nearest of those. -/
def shortest (tie : Tie) (x : Binary64) : Digits :=
  let d := 4 * x.ratio.2
  let n := 4 * x.ratio.1
  let unit := Nat.pow 2 x.exponent.toNat
  let below := if x.mantissa = Nat.pow 2 52 ∧ leastExponent < x.exponent then unit else 2 * unit
  let low := n - below
  let high := n + 2 * unit
  let closed := x.mantissa % 2 = 0
  let inside (c : Nat) (k : Int) : Bool :=
    if closed then ratioLe low d c k && leRatio c k high d
    else !leRatio c k low d && !ratioLe high d c k
  let lead := leadingExponent n d (-325) 700
  let candidate (count : Nat) : Option Digits :=
    let k := lead - Int.ofNat count + 1
    let scaled := n * Nat.pow 10 (-k).toNat
    let grid := d * Nat.pow 10 k.toNat
    let c := scaled / grid
    let lower := inside c k
    let upper := inside (c + 1) k
    if lower && upper then some ⟨if tie.goesUp c (scaled % grid) grid then c + 1 else c, k⟩
    else if lower then some ⟨c, k⟩
    else if upper then some ⟨c + 1, k⟩
    else none
  ((List.range 17).findSome? fun i => candidate (i + 1)).getD ⟨x.mantissa, 0⟩

/-! ### Texts -/

/-- A sign in front of a text. -/
def signed (x : Binary64) (text : String) : String :=
  if x.negative then "-" ++ text else text

/-- Digits with a point among, in front of or after them, and zeros where they are needed. -/
def positional (ds : List Char) (exponent : Int) : String :=
  let point := Int.ofNat ds.length + exponent
  if 0 ≤ exponent then String.ofList (ds ++ List.replicate exponent.toNat '0')
  else if 0 < point then
    String.ofList (ds.take point.toNat) ++ "." ++ String.ofList (ds.drop point.toNat)
  else "0." ++ String.ofList (List.replicate (-point).toNat '0' ++ ds)

/-- The shortest digits without trailing zeros, and their exponent. -/
def trimmedDigits (tie : Tie) (x : Binary64) : List Char × Int :=
  let s := x.shortest tie
  let ds := Nat.toDigits 10 s.digits
  let kept := (ds.reverse.dropWhile (· == '0')).reverse
  (kept, s.exponent + Int.ofNat (ds.length - kept.length))

/-- The shortest digits, never with an exponent and with a point only if there is a fraction. Halfway they go up. -/
def positionalText (x : Binary64) : String :=
  x.signed <|
    if x.mantissa = 0 then "0"
    else
      let (ds, k) := x.trimmedDigits .up
      positional ds k

/-- An exponent, always with its sign. -/
def exponentText (e : Int) : String :=
  (if e < 0 then "-" else "+") ++ toString e.natAbs

/-- The shortest digits, always with a point or an exponent: positional from `1e-5` up to `1e16`. Halfway the last digit
is even. -/
def scientificText (x : Binary64) : String :=
  x.signed <|
    if x.mantissa = 0 then "0.0"
    else
      let (ds, k) := x.trimmedDigits .toEven
      let point := Int.ofNat ds.length + k
      if 0 ≤ k ∧ point ≤ 16 then positional ds k ++ ".0"
      else if -5 < point ∧ point ≤ 16 then positional ds k
      else
        let fraction := if ds.length ≤ 1 then "" else "." ++ String.ofList (ds.drop 1)
        String.ofList (ds.take 1) ++ fraction ++ "e" ++ exponentText (point - 1)

end Binary64
end Dimensional
