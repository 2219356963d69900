import Dimensional.Exponent
import Dimensional.NameMap
import Dimensional.Text.Superscript

/-!
# Dimensions

A dimension is a product of powers of base units. It keeps the exponents that are not zero, so two dimensions are equal
exactly when every name has the same exponent in both (`Dimension.ext_exponent`).
-/

namespace Dimensional

/-- A product of powers of named base units, none of them to the power 0. -/
structure Dimension where
  exponents : NameMap Exponent
  nonzero : ∀ e ∈ exponents.entries, e.2 ≠ 0
deriving DecidableEq

namespace Dimension

/-- The empty product. -/
def dimensionless : Dimension := ⟨NameMap.empty, by simp [NameMap.empty]⟩

instance : Inhabited Dimension := ⟨dimensionless⟩

def isDimensionless (d : Dimension) : Bool :=
  d.exponents.isEmpty

/-- The number of base units that occur. -/
def size (d : Dimension) : Nat :=
  d.exponents.size

/-- The base units that occur with their exponents, in order. -/
def entries (d : Dimension) : List (String × Exponent) :=
  d.exponents.entries

/-- The exponent of a base unit, 0 if it does not occur. -/
def exponent (d : Dimension) (name : String) : Exponent :=
  (d.exponents.get? name).getD 0

/-- Give a base unit an exponent; the exponent 0 takes it out. -/
def setExponent (d : Dimension) (name : String) (e : Exponent) : Dimension :=
  if h : e = 0 then
    ⟨d.exponents.erase name, fun x hx => d.nonzero x (List.mem_filter.mp hx).1⟩
  else
    ⟨d.exponents.insert name e, fun x hx => by
      rcases NameMap.mem_insertEntry hx with rfl | hx
      · exact h
      · exact d.nonzero x hx⟩

/-- Multiply by one power of a base unit. -/
def accumulate (d : Dimension) (name : String) (e : Exponent) : Dimension :=
  d.setExponent name (d.exponent name + e)

/-- One power of a base unit. -/
def base (name : String) (e : Exponent) : Dimension :=
  dimensionless.setExponent name e

/-- The product of a list of powers. -/
def ofList (es : List (String × Exponent)) : Dimension :=
  es.foldl (fun d e => d.accumulate e.1 e.2) dimensionless

/-- The product of two dimensions. -/
def mul (d other : Dimension) : Dimension :=
  other.entries.foldl (fun d e => d.accumulate e.1 e.2) d

/-- Every exponent times `n`. -/
def pow (d : Dimension) (n : Exponent) : Dimension :=
  ofList (d.entries.map fun e => (e.1, e.2 * n))

/-- Multiply by the power `n` of another dimension, one base unit of it after the other. -/
def mulPow (d other : Dimension) (n : Exponent) : Dimension :=
  other.entries.foldl (fun d e => d.accumulate e.1 (e.2 * n)) d

/-- Every exponent times −1. -/
def inverse (d : Dimension) : Dimension :=
  d.pow (-1)

/-- The quotient of two dimensions. -/
def div (d other : Dimension) : Dimension :=
  d.mul other.inverse

/-! ### Text -/

/-- One power: the name, and the exponent in superscripts unless it is 1. -/
def powerText (e : String × Exponent) : String :=
  if e.2 = 1 then e.1 else e.1 ++ Superscript.ofInt e.2.val

/-- The powers in order with blanks between them; nothing for the empty product. -/
def text (d : Dimension) : String :=
  " ".intercalate (d.entries.map powerText)

/-- The powers in order, or `1` for the empty product. -/
def display (d : Dimension) : String :=
  if d.isDimensionless then "1" else d.text

/-! ### Exponents of the operations -/

theorem exponent_dimensionless (name : String) : dimensionless.exponent name = 0 := rfl

theorem exponent_setExponent (d : Dimension) (name name' : String) (e : Exponent) :
    (d.setExponent name e).exponent name' = if name' = name then e else d.exponent name' := by
  unfold setExponent exponent
  by_cases h : e = 0
  · by_cases hn : name' = name <;> simp [h, NameMap.get?_erase, hn]
  · by_cases hn : name' = name <;> simp [h, NameMap.get?_insert, hn]

theorem exponent_accumulate (d : Dimension) (name name' : String) (e : Exponent) :
    (d.accumulate name e).exponent name' = if name' = name then d.exponent name + e else d.exponent name' :=
  exponent_setExponent d name name' _

/-- Dimensions with the same exponents are equal. -/
theorem ext_exponent {d₁ d₂ : Dimension} (h : ∀ name, d₁.exponent name = d₂.exponent name) : d₁ = d₂ := by
  have key : ∀ (d : Dimension) (name : String),
      d.exponents.get? name = if d.exponent name = 0 then none else some (d.exponent name) := by
    intro d name
    unfold exponent
    cases hg : d.exponents.get? name with
    | none => rfl
    | some e =>
      have : e ≠ 0 := d.nonzero (name, e) (NameMap.get?_eq_some_iff.mp hg)
      simp [this]
  have : d₁.exponents = d₂.exponents := NameMap.ext_get? fun name => by rw [key, key, h]
  obtain ⟨m₁, _⟩ := d₁
  obtain ⟨m₂, _⟩ := d₂
  subst this
  rfl

end Dimension
end Dimensional
