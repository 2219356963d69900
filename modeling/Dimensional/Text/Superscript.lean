/-!
# Superscript numerals

The ten superscript digits and the superscript minus, and the integers written with them.
-/

namespace Dimensional
namespace Superscript

/-- The value of a superscript digit. -/
def digit? : Char → Option Nat
  | '⁰' => some 0
  | '¹' => some 1
  | '²' => some 2
  | '³' => some 3
  | '⁴' => some 4
  | '⁵' => some 5
  | '⁶' => some 6
  | '⁷' => some 7
  | '⁸' => some 8
  | '⁹' => some 9
  | _ => none

/-- The minus sign in front of a superscript numeral. -/
def minus : Char := '⁻'

/-- The raised form of an ASCII digit. -/
def raise : Char → Char
  | '0' => '⁰'
  | '1' => '¹'
  | '2' => '²'
  | '3' => '³'
  | '4' => '⁴'
  | '5' => '⁵'
  | '6' => '⁶'
  | '7' => '⁷'
  | '8' => '⁸'
  | '9' => '⁹'
  | c => c

/-- A natural number in superscript digits, without leading zeros. -/
def ofNat (n : Nat) : String :=
  String.ofList ((Nat.toDigits 10 n).map raise)

/-- An integer in superscript digits, a superscript minus in front of a negative one. -/
def ofInt (n : Int) : String :=
  String.ofList ((if n < 0 then [minus] else []) ++ (Nat.toDigits 10 n.natAbs).map raise)

theorem digit?_raise_digitChar {d : Nat} (h : d < 10) : digit? (raise d.digitChar) = some d := by
  match d, h with
  | 0, _ | 1, _ | 2, _ | 3, _ | 4, _ | 5, _ | 6, _ | 7, _ | 8, _ | 9, _ => rfl

end Superscript
end Dimensional
