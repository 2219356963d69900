import Dimensional.Json.UnitSystem
import Dimensional.Proofs.Dimension.Inverse
import Dimensional.Proofs.Json.Decoding
import Dimensional.Proofs.Quantity.Root
import Mathlib.Data.List.Induction

/-!
# Dimensions and the exponents they were given

`Obtained d f` follows a dimension through the operations that give dimensions, and beside it the exponents that the
operations promise: integers for all names, each sum and product of which is taken to the nearest exponent. The
dimension keeps exactly those that are not 0 (`Obtained.mem_entries_iff`), so dimensions can be compared by comparing
exponents (`Obtained.eq_iff`).
-/

namespace Dimensional

open Json (Document Fault StringText)

/-! ### Promised exponents -/

namespace Exponent

def nearest (n : Int) : Int := max least (min greatest n)

theorem val_add_eq_nearest (a b : Exponent) : (a + b).val = nearest (a.val + b.val) := rfl

theorem val_mul_eq_nearest (a b : Exponent) : (a * b).val = nearest (a.val * b.val) := rfl

theorem val_half_eq_tdiv (a : Exponent) : a.half.val = a.val.tdiv 2 := by
  have hlower := a.lower
  have hupper := a.upper
  have hnat : (a.val.tdiv 2).natAbs = a.val.natAbs / 2 := Int.natAbs_tdiv a.val 2
  apply val_ofInt_of_mem <;> simp only [least, greatest] <;> omega

end Exponent

namespace Dimension

open Exponent (nearest)

def runningSum (name : String) (es : List (String × Exponent)) : Int :=
  es.foldl (fun sum e => if e.1 = name then nearest (sum + e.2.val) else sum) 0

/-- The exponent that the members of an object give to a name: the last one if there are several. -/
def lastExponent (name : String) (members : List (StringText × Document)) : Int :=
  members.foldl (fun last m =>
    match m.1.decode, m.2.exponent with
    | .ok key, .ok e => if key = name then e.val else last
    | _, _ => last) 0

/-! ### Operations -/

/-- The dimension is given by operations that promise the exponents. -/
inductive Obtained : Dimension → (String → Int) → Prop
  | dimensionless : Obtained .dimensionless fun _ => 0
  | base (name : String) (e : Exponent) : Obtained (.base name e) fun n => if n = name then e.val else 0
  | ofList (es : List (String × Exponent)) : Obtained (.ofList es) fun n => runningSum n es
  | ofMap (m : NameMap Exponent) : Obtained (.ofList m.entries) fun n => ((m.get? n).getD 0).val
  | decode {nesting : Nat} {members : List (StringText × Document)} {ending : Option Json.Break} {d : Dimension}
      (h : Dimension.decode nesting (.object members ending) = .ok d) : Obtained d fun n => lastExponent n members
  | accumulate {d : Dimension} {f : String → Int} (hd : Obtained d f) (name : String) (e : Exponent) :
      Obtained (d.accumulate name e) fun n => if n = name then nearest (f n + e.val) else f n
  | mul {d d' : Dimension} {f f' : String → Int} (hd : Obtained d f) (hd' : Obtained d' f') :
      Obtained (d.mul d') fun n => nearest (f n + f' n)
  | div {d d' : Dimension} {f f' : String → Int} (hd : Obtained d f) (hd' : Obtained d' f') :
      Obtained (d.div d') fun n => nearest (f n + nearest (-f' n))
  | inverse {d : Dimension} {f : String → Int} (hd : Obtained d f) : Obtained d.inverse fun n => nearest (-f n)
  | pow {d : Dimension} {f : String → Int} (hd : Obtained d f) (k : Exponent) :
      Obtained (d.pow k) fun n => nearest (f n * k.val)
  | add {p q r : Quantity} {f : String → Int} (hp : Obtained p.units f) (h : p.add q = .ok r) : Obtained r.units f
  | sub {p q r : Quantity} {f : String → Int} (hp : Obtained p.units f) (h : p.sub q = .ok r) : Obtained r.units f
  | product {p q r : Quantity} {f f' : String → Int} (hp : Obtained p.units f) (hq : Obtained q.units f')
      (h : p.mul q = .ok r) : Obtained r.units fun n => nearest (f n + f' n)
  | quotient {p q r : Quantity} {f f' : String → Int} (hp : Obtained p.units f) (hq : Obtained q.units f')
      (h : p.div q = .ok r) : Obtained r.units fun n => nearest (f n + nearest (-f' n))
  | scale {q r : Quantity} {f : String → Int} {factor : Decimal} (hq : Obtained q.units f)
      (h : q.scale factor = .ok r) : Obtained r.units f
  | sqrt {q r : Quantity} {f : String → Int} (hq : Obtained q.units f) (h : q.sqrt = .ok r) :
      Obtained r.units fun n => (f n).tdiv 2

variable {d d' : Dimension} {f f' : String → Int} {name : String} {e : Exponent}

theorem val_exponent_ofList_eq (es : List (String × Exponent)) :
    ((ofList es).exponent name).val = runningSum name es := by
  induction es using List.reverseRecOn with
  | nil => rfl
  | append_singleton es e ih =>
    rw [ofList_append_singleton, exponent_accumulate, runningSum, List.foldl_append, ← runningSum]
    simp only [List.foldl_cons, List.foldl_nil]
    by_cases hn : name = e.1
    · rw [if_pos hn, if_pos hn.symm, Exponent.val_add_eq_nearest, ← hn, ih]
    · rw [if_neg hn, if_neg (Ne.symm hn), ih]

theorem val_exponent_inverse : (d.inverse.exponent name).val = nearest (-(d.exponent name).val) := by
  rw [exponent_inverse, Exponent.val_mul_eq_nearest]
  congr 1
  exact Int.mul_neg_one _

/-! ### Objects as dimensions -/

theorem lastExponent_append_singleton (members : List (StringText × Document)) {m : StringText × Document}
    {key : String} (hk : m.1.decode = .ok key) (he : m.2.exponent = .ok e) :
    lastExponent name (members ++ [m]) = if key = name then e.val else lastExponent name members := by
  simp [lastExponent, hk, he]

/-- A growing map gives each name the last exponent of the members read so far. -/
theorem get?_foldMembers (read : List (StringText × Document)) {members : List (StringText × Document)}
    {m all : NameMap Exponent}
    (hm : ∀ name, ((m.get? name).getD 0).val = lastExponent name read)
    (h : Document.foldMembers (fun m name value => do
      let e ← value.exponent
      return m.insert name e) m members = .ok all) :
    ((all.get? name).getD 0).val = lastExponent name (read ++ members) := by
  induction members generalizing m read with
  | nil =>
    cases h
    rw [List.append_nil]
    exact hm name
  | cons member rest ih =>
    obtain ⟨k, s, hk, hadd, hrest⟩ := Document.foldMembers_cons_eq_ok_iff.mp h
    obtain ⟨e, he, hs⟩ := Json.bind_eq_ok_iff.mp hadd
    obtain rfl := Json.pure_eq_ok_iff.mp hs
    rw [List.append_cons]
    refine ih _ (fun name => ?_) hrest
    rw [lastExponent_append_singleton read hk he, NameMap.get?_insert]
    by_cases hn : name = k
    · simp [hn]
    · rw [if_neg hn, if_neg (Ne.symm hn), hm]

/-- Only objects are decoded, and each name has the last exponent that they give it. -/
theorem decode_eq_ok {nesting : Nat} {doc : Document} (h : decode nesting doc = .ok d) :
    ∃ members, doc = .object members none ∧ ∀ name, (d.exponent name).val = lastExponent name members := by
  obtain ⟨all, hall, hd⟩ := Json.bind_eq_ok_iff.mp h
  obtain rfl := Json.pure_eq_ok_iff.mp hd
  obtain ⟨members, rfl, -, hfold⟩ := Document.map_eq_ok_iff.mp hall
  refine ⟨members, rfl, fun name => ?_⟩
  rw [exponent_ofMap]
  exact get?_foldMembers [] (fun _ => rfl) hfold

end Dimension

/-! ### Quantities -/

namespace Quantity

variable {p q r : Quantity} {factor : Decimal} {name : String}

theorem units_of_orOverflow {operation : Operation} {value : Option Decimal} {units : Dimension}
    (h : orOverflow operation value units = .ok r) : r.units = units := by
  cases value with
  | none => cases h
  | some v =>
    cases h
    rfl

theorem units_of_withSameUnits {operation : Operation} {value : Option Decimal}
    (h : withSameUnits p q operation value = .ok r) : r.units = p.units := by
  rw [withSameUnits] at h
  split at h
  · exact units_of_orOverflow h
  · cases h

theorem units_of_mul (h : p.mul q = .ok r) : r.units = p.units.mul q.units :=
  units_of_orOverflow h

theorem units_of_div (h : p.div q = .ok r) : r.units = p.units.div q.units := by
  rw [div] at h
  split at h
  · cases h
  · exact units_of_orOverflow h

theorem units_of_scale (h : q.scale factor = .ok r) : r.units = q.units := by
  rw [units_of_mul h]
  refine Dimension.ext_exponent fun name => ?_
  rw [Dimension.exponent_mul, plain, Dimension.exponent_dimensionless, Exponent.add_zero]

theorem exponent_of_sqrt (h : q.sqrt = .ok r) : r.units.exponent name = (q.units.exponent name).half := by
  obtain ⟨heven, hv⟩ := sqrt_eq_ok_iff.mp ⟨r, h⟩
  obtain ⟨v, -, hr⟩ := exists_sqrt_eq_ok heven hv
  obtain rfl : r = _ := Except.ok.inj (h.symm.trans hr)
  exact Dimension.exponent_ofList_map _ name Exponent.half rfl

end Quantity

/-! ### What is kept -/

namespace Dimension

open Exponent (nearest)

variable {d d' : Dimension} {f f' : String → Int} {name : String} {e : Exponent}

/-- **Every operation gives the exponents that it promises.** -/
theorem Obtained.val_exponent (h : Obtained d f) (name : String) : (d.exponent name).val = f name := by
  induction h with
  | dimensionless => rfl
  | base n e =>
    rw [exponent_base]
    exact apply_ite Exponent.val _ _ _
  | ofList es => exact val_exponent_ofList_eq es
  | ofMap m => rw [exponent_ofMap]
  | decode h =>
    obtain ⟨members, hdoc, hval⟩ := decode_eq_ok h
    cases hdoc
    exact hval name
  | accumulate hd n e ih =>
    rw [exponent_accumulate]
    beta_reduce
    by_cases hn : name = n
    · rw [if_pos hn, if_pos hn, Exponent.val_add_eq_nearest, ← hn, ih]
    · rw [if_neg hn, if_neg hn, ih]
  | mul hd hd' ih ih' => rw [exponent_mul, Exponent.val_add_eq_nearest, ih, ih']
  | div hd hd' ih ih' => rw [Dimension.div, exponent_mul, Exponent.val_add_eq_nearest, val_exponent_inverse, ih, ih']
  | inverse hd ih => rw [val_exponent_inverse, ih]
  | pow hd k ih => rw [exponent_pow, Exponent.val_mul_eq_nearest, ih]
  | add hp h ih | sub hp h ih => rw [Quantity.units_of_withSameUnits h, ih]
  | product hp hq h ih ih' => rw [Quantity.units_of_mul h, exponent_mul, Exponent.val_add_eq_nearest, ih, ih']
  | quotient hp hq h ih ih' =>
    rw [Quantity.units_of_div h, Dimension.div, exponent_mul, Exponent.val_add_eq_nearest, val_exponent_inverse, ih, ih']
  | scale hq h ih => rw [Quantity.units_of_scale h, ih]
  | sqrt hq h ih => rw [Quantity.exponent_of_sqrt h, Exponent.val_half_eq_tdiv, ih]

/-- **A dimension keeps the promised exponents that are not 0**, and nothing else. -/
theorem Obtained.mem_entries_iff (h : Obtained d f) : (name, e) ∈ d.entries ↔ e.val = f name ∧ f name ≠ 0 := by
  rw [← h.val_exponent name]
  constructor
  · intro he
    rw [exponent_of_mem he]
    exact ⟨rfl, fun hzero => d.nonzero _ he (Exponent.ext hzero)⟩
  · rintro ⟨heq, hne⟩
    cases hg : d.exponents.get? name with
    | none =>
      rw [exponent, hg] at hne
      exact absurd rfl hne
    | some e' =>
      have hmem : (name, e') ∈ d.entries := NameMap.get?_eq_some_iff.mp hg
      rw [exponent_of_mem hmem] at heq
      rwa [Exponent.ext heq]

theorem Obtained.eq_iff (h : Obtained d f) (h' : Obtained d' f') : d = d' ↔ ∀ name, f name = f' name := by
  constructor
  · rintro rfl name
    rw [← h.val_exponent, ← h'.val_exponent]
  · intro hf
    refine ext_exponent fun name => Exponent.ext ?_
    rw [h.val_exponent, h'.val_exponent, hf]

end Dimension
end Dimensional
