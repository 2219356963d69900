import Dimensional.Proofs.Json.Compact
import Dimensional.Proofs.Json.Diagnostic

/-!
# Encoding and decoding

What is encoded has a text, whatever the order of the members of its objects, and each text of it decodes to what was
encoded. Encodings hold no real numbers and are not nested deeply (`Json.Plain`), so their compact texts can be read.

The main statement is `encodings_decode`.
-/

namespace Dimensional

open Json (Document Fault IsTextOf IsWord Plain Reordered decodeText greatestNesting greatestUnsigned)

/-! ### Plain encodings -/

namespace Json

variable {depth : Nat} {j j' : Json} {items items' : List Json} {members members' : List (String × Json)}

theorem ReorderedItems.exists_of_mem (h : ReorderedItems items items') {item' : Json} (hmem : item' ∈ items') :
    ∃ item ∈ items, Reordered item item' := by
  induction items' generalizing items with
  | nil => cases hmem
  | cons first rest ih =>
    cases h with
    | cons hfirst hrest =>
      rcases List.mem_cons.mp hmem with rfl | hmem
      · exact ⟨_, List.mem_cons_self, hfirst⟩
      · obtain ⟨item, hitem, hr⟩ := ih hrest hmem
        exact ⟨item, List.mem_cons_of_mem _ hitem, hr⟩

theorem ReorderedMembers.exists_of_mem (h : ReorderedMembers members members') {m' : String × Json}
    (hmem : m' ∈ members') : ∃ m ∈ members, Reordered m.2 m'.2 := by
  induction members' generalizing members with
  | nil => cases hmem
  | cons first rest ih =>
    cases h with
    | cons name hfirst hrest =>
      rcases List.mem_cons.mp hmem with rfl | hmem
      · exact ⟨_, List.mem_cons_self, hfirst⟩
      · obtain ⟨m, hm, hr⟩ := ih hrest hmem
        exact ⟨m, List.mem_cons_of_mem _ hm, hr⟩

/-- Reordering keeps a value plain. -/
theorem Plain.reordered (h : Plain depth j) (hr : Reordered j j') : Plain depth j' := by
  induction depth generalizing j j' with
  | zero =>
    cases hr with
    | null | bool | number | string => exact h
    | list | object => exact h.elim
  | succ depth ih =>
    cases hr with
    | null | bool | number | string => exact h
    | list hitems =>
      intro item' hmem
      obtain ⟨item, hitem, hr⟩ := hitems.exists_of_mem hmem
      exact ih (h item hitem) hr
    | object hothers hp =>
      intro m' hmem
      obtain ⟨m, hm, hr⟩ := hothers.exists_of_mem (hp.mem_iff.mpr hmem)
      exact ih (h m hm) hr

end Json

theorem Exponent.isWord_val (e : Exponent) : IsWord e.val := by
  have hlower := e.lower
  have hupper := e.upper
  simp only [IsWord, greatestUnsigned]
  omega

variable (depth : Nat)

/-- An object that gives exponents to names, maybe several to one. -/
def exponentsJson (es : List (String × Exponent)) : Json :=
  .object (es.map fun e => (e.1, Json.int e.2.val))

theorem plain_exponents (es : List (String × Exponent)) : Plain (depth + 1) (exponentsJson es) := by
  intro m hm
  obtain ⟨e, -, rfl⟩ := List.mem_map.mp hm
  exact Json.plain_int depth e.2.isWord_val

theorem Definition.plain_toJson (d : Definition) : Plain (depth + 2) d.toJson := by
  cases d with
  | base | synonym => trivial
  | product factors =>
    intro item hitem
    obtain ⟨f, -, rfl⟩ := List.mem_map.mp hitem
    intro part hpart
    rcases List.mem_pair.mp hpart with rfl | rfl
    · exact Json.plain_string depth f.1
    · exact Json.plain_int depth f.2.isWord_val

theorem UnitSystem.plain_toJson (system : UnitSystem) : Plain (depth + 3) system.toJson := by
  intro m hm
  obtain ⟨e, -, rfl⟩ := List.mem_map.mp hm
  exact e.2.plain_toJson depth

theorem MessageCatalog.plain_toJson (c : MessageCatalog) : Plain (depth + 1) c.toJson := by
  intro m hm
  obtain ⟨o, -, rfl⟩ := List.mem_map.mp hm
  exact Json.plain_string depth o.2

theorem UnitSystemFile.plain_toJson (f : UnitSystemFile) : Plain (depth + 4) f.toJson := by
  intro m hm
  rcases List.mem_pair.mp hm with rfl | rfl
  · exact f.messages.plain_toJson (depth + 2)
  · exact f.units.plain_toJson depth

theorem Json.isWord_natCast {n : Nat} (h : n ≤ greatestUnsigned) : IsWord n := by
  rw [IsWord]
  omega

theorem Span.plain_toJson {s : Span} (hstart : s.start ≤ greatestUnsigned) (hstop : s.stop ≤ greatestUnsigned) :
    Plain (depth + 1) s.toJson := by
  intro m hm
  rcases List.mem_pair.mp hm with rfl | rfl
  · exact Json.plain_int depth (Json.isWord_natCast hstop)
  · exact Json.plain_int depth (Json.isWord_natCast hstart)

theorem Detail.plain_toJson (detail : Detail) : Plain (depth + 2) detail.toJson := by
  cases detail <;> simp [Detail.toJson, Plain]

theorem Diagnostic.plain_toJson {d : Diagnostic} (hstart : d.span.start ≤ greatestUnsigned)
    (hstop : d.span.stop ≤ greatestUnsigned) : Plain (depth + 3) d.toJson := by
  intro m hm
  simp only [List.mem_cons, List.not_mem_nil, or_false] at hm
  rcases hm with rfl | rfl | rfl | rfl
  · exact d.detail.plain_toJson depth
  · exact Json.plain_string _ _
  · exact Json.plain_string _ _
  · exact Span.plain_toJson (depth + 1) hstart hstop

/-! ### Round trips -/

/-- What is encoded has a text, in any order of members, and each of its texts decodes to what was encoded. -/
def RoundTrips {α : Type} (encoding : Json) (decode : String → Except Fault α) (a : α) : Prop :=
  ∀ j, Reordered encoding j → IsTextOf j.compact j ∧ ∀ text, IsTextOf text j → decode text = .ok a

theorem roundTrips_of_decode {α : Type} {encoding : Json} {decode : Document → Except Fault α} {a : α}
    (hplain : Plain greatestNesting encoding)
    (hdecode : ∀ j d, Reordered encoding j → d.settle greatestNesting = .ok j → decode d = .ok a) :
    RoundTrips encoding (decodeText decode) a :=
  fun j hj => ⟨Json.isTextOf_compact (hplain.reordered hj), fun _ ht => ht.decodeText fun d => hdecode j d hj⟩

theorem UnitSystemFile.roundTrips (f : UnitSystemFile) : RoundTrips f.toJson UnitSystemFile.ofText f :=
  roundTrips_of_decode (f.plain_toJson 123) fun _ _ => decode_toJson

theorem Dimension.roundTrips (d : Dimension) :
    RoundTrips d.toJson (decodeText (Dimension.decode greatestNesting)) d :=
  roundTrips_of_decode (plain_exponents 126 d.entries) fun _ _ => decode_toJson

theorem Diagnostic.roundTrips {d : Diagnostic} (hstart : d.span.start ≤ greatestUnsigned)
    (hstop : d.span.stop ≤ greatestUnsigned) :
    RoundTrips d.toJson (decodeText (Diagnostic.decode greatestNesting)) d :=
  roundTrips_of_decode (Diagnostic.plain_toJson 124 hstart hstop) fun _ _ => decode_toJson

/-- **What was encoded is decoded again.** Files, dimensions and diagnostics whose offsets have 64 bits go through their
encodings, with the members of objects in any order, to texts and back. Any object of exponents decodes to the dimension
with the last exponent of each name, and the dimension goes through its encoding and back. -/
theorem encodings_decode :
    (∀ f : UnitSystemFile, RoundTrips f.toJson UnitSystemFile.ofText f) ∧
    (∀ d : Dimension, RoundTrips d.toJson (decodeText (Dimension.decode greatestNesting)) d) ∧
    (∀ d : Diagnostic, d.span.start ≤ greatestUnsigned → d.span.stop ≤ greatestUnsigned →
      RoundTrips d.toJson (decodeText (Diagnostic.decode greatestNesting)) d) ∧
    ∀ es : List (String × Exponent), IsTextOf (exponentsJson es).compact (exponentsJson es) ∧ ∃ d : Dimension,
      (∀ text, IsTextOf text (exponentsJson es) → decodeText (Dimension.decode greatestNesting) text = .ok d) ∧
      (∀ name, d.exponent name = ((NameMap.ofList es).get? name).getD 0) ∧
      RoundTrips d.toJson (decodeText (Dimension.decode greatestNesting)) d := by
  refine ⟨UnitSystemFile.roundTrips, Dimension.roundTrips, fun d => Diagnostic.roundTrips, fun es => ⟨?_, ?_⟩⟩
  · exact Json.isTextOf_compact (plain_exponents 126 es)
  · refine ⟨.ofList (NameMap.ofList es).entries, fun text htext => ?_, fun name => ?_, Dimension.roundTrips _⟩
    · exact htext.decodeText fun d hd => Dimension.decode_of_settle hd
    · exact Dimension.exponent_ofMap name _

/-- A file with an empty name, an empty alias and an empty product; a cycle; and a name that has two exponents in an
object, the last of which is 0. -/
theorem encodings_decode_empty_names :
    let file : UnitSystemFile :=
      ⟨NameMap.ofList [("", .base), ("\"ohm\"", .synonym ""), ("Ω", .product [])],
        MessageCatalog.english.insert .internalError ""⟩
    let cycle : Diagnostic := ⟨⟨.circularReferences, ⟨0, greatestUnsigned⟩, .cycle "" ["", ""]⟩, "\n"⟩
    UnitSystemFile.ofText file.toJson.compact = .ok file ∧
    decodeText (Diagnostic.decode greatestNesting) cycle.toJson.compact = .ok cycle ∧
    decodeText (Dimension.decode greatestNesting) (exponentsJson [("m", 1), ("m", 0)]).compact = .ok .dimensionless ∧
    decodeText (Dimension.decode greatestNesting) Dimension.dimensionless.toJson.compact = .ok .dimensionless := by
  intro file cycle
  obtain ⟨hfiles, hdimensions, hdiagnostics, hobjects⟩ := encodings_decode
  obtain ⟨hfile, hfile'⟩ := hfiles file file.toJson (.refl _)
  obtain ⟨hcycle, hcycle'⟩ := hdiagnostics cycle (by decide) (by decide) cycle.toJson (.refl _)
  obtain ⟨hempty, hempty'⟩ := hdimensions .dimensionless Dimension.dimensionless.toJson (.refl _)
  obtain ⟨hobject, d, hobject', hexponents, -⟩ := hobjects [("m", 1), ("m", 0)]
  have hd : d = .dimensionless := by
    refine Dimension.ext_exponent fun name => ?_
    rw [hexponents, Dimension.exponent_dimensionless]
    by_cases hn : name = "m"
    · subst hn
      decide
    · simp [NameMap.ofList, NameMap.get?_insert, hn]
  exact ⟨hfile' _ hfile, hcycle' _ hcycle, hd ▸ hobject' _ hobject, hempty' _ hempty⟩

end Dimensional
