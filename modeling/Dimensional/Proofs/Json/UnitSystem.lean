import Dimensional.Json.UnitSystem
import Dimensional.Proofs.Dimension.Exponents
import Dimensional.Proofs.Json.Decoding
import Dimensional.Proofs.Json.Reordering

/-!
# Dimensions and unit systems decode to what was encoded

A document whose value is an encoding, with the members of its objects in any order, decodes to what was encoded. The
three forms of a definition are three kinds of values, so the one that was encoded is the one that fits
(`Definition.ofJson?_toJson`).
-/

namespace Dimensional

open Json (Document Fault Reordered)

/-! ### Exponents and dimensions -/

theorem Json.Document.exponent_of_settle {d : Document} {nesting : Nat} {e : Exponent}
    (hd : d.settle nesting = .ok (Json.int e.val)) : d.exponent = .ok e := by
  obtain ⟨t, rfl, ht⟩ := settle_eq_number_iff.mp hd
  have hmem : Exponent.least ≤ e.val ∧ e.val ≤ Exponent.greatest := ⟨e.lower, e.upper⟩
  simp [Document.exponent, ht, hmem, Exponent.ofInt_val]

theorem Json.Document.text_of_settle {d : Document} {nesting : Nat} {text : String}
    (hd : d.settle nesting = .ok (.string text)) : d.text = .ok text := by
  obtain ⟨t, rfl, ht⟩ := settle_eq_string_iff.mp hd
  exact ht

namespace Dimension

variable {doc : Document} {nesting : Nat}

/-- **What an object of exponents decodes to.** -/
theorem decode_of_settle {es : List (String × Exponent)}
    (hdoc : doc.settle nesting = .ok (.object (es.map fun e => (e.1, Json.int e.2.val)))) :
    decode nesting doc = .ok (.ofList (NameMap.ofList es).entries) := by
  refine Json.bind_eq_ok_iff.mpr ⟨NameMap.ofList es, Document.map_of_settle hdoc fun e _ d m hd => ?_, rfl⟩
  exact Json.bind_eq_ok_iff.mpr ⟨e.2, Document.exponent_of_settle hd, rfl⟩

theorem decode_toJson {d : Dimension} {j : Json} (hj : Reordered d.toJson j) (hdoc : doc.settle nesting = .ok j) :
    decode nesting doc = .ok d := by
  obtain ⟨es, hp, rfl⟩ := Json.exists_map_of_reordered hj fun e _ => Json.rigid_number _
  have hmap : NameMap.ofList es = d.exponents := NameMap.foldl_insert_perm hp
  rw [decode_of_settle hdoc, hmap]
  exact congrArg Except.ok d.ofList_entries

end Dimension

/-! ### Definitions -/

namespace Definition

variable {doc : Document} {nesting : Nat}

theorem factorOfJson?_toJson (f : String × Exponent) : factorOfJson? (factorToJson f) = some f := by
  have hmem : Exponent.least ≤ f.2.val ∧ f.2.val ≤ Exponent.greatest := ⟨f.2.lower, f.2.upper⟩
  simp [factorToJson, Json.int, factorOfJson?, hmem, Exponent.ofInt_val]

theorem mapM_factorOfJson? (fs : List (String × Exponent)) : (fs.map factorToJson).mapM factorOfJson? = some fs := by
  induction fs with
  | nil => rfl
  | cons f fs ih => simp [factorOfJson?_toJson, ih]

/-- **The form that fits is the one that was encoded.** -/
theorem ofJson?_toJson (d : Definition) : ofJson? d.toJson = some d := by
  cases d with
  | base => rfl
  | synonym target => rfl
  | product factors =>
    rw [toJson, ofJson?, mapM_factorOfJson?]
    rfl

theorem rigid_toJson (d : Definition) : d.toJson.Rigid := by
  cases d with
  | base => exact Json.rigid_null
  | synonym target => exact Json.rigid_string target
  | product factors =>
    refine Json.rigid_list fun item hitem => ?_
    obtain ⟨f, -, rfl⟩ := List.mem_map.mp hitem
    refine Json.rigid_list fun part hpart => ?_
    rcases List.mem_pair.mp hpart with rfl | rfl
    · exact Json.rigid_string f.1
    · exact Json.rigid_number _

theorem decode_of_settle {d : Definition} (hdoc : doc.settle nesting = .ok d.toJson) : decode nesting doc = .ok d := by
  rw [decode, hdoc]
  simp [bind, Except.bind, ofJson?_toJson, pure, Except.pure]

end Definition

/-! ### Unit systems and catalogs -/

variable {doc : Document} {nesting : Nat} {j : Json}

theorem UnitSystem.decode_toJson {system : UnitSystem} (hj : Reordered system.toJson j)
    (hdoc : doc.settle nesting = .ok j) : UnitSystem.decode nesting doc = .ok system := by
  obtain ⟨es, hp, rfl⟩ := Json.exists_map_of_reordered hj fun e _ => e.2.rigid_toJson
  have hmap : NameMap.ofList es = system := NameMap.foldl_insert_perm hp
  rw [← hmap]
  refine Document.map_of_settle hdoc fun e _ d m hd => ?_
  exact Json.bind_eq_ok_iff.mpr ⟨e.2, Definition.decode_of_settle hd, rfl⟩

theorem MessageId.ofKey_key (id : MessageId) : ofKey id.key = .ok id := by
  rw [ofKey, ofKey?_key]

theorem MessageCatalog.decode_toJson {c : MessageCatalog} (hj : Reordered c.toJson j)
    (hdoc : doc.settle nesting = .ok j) : MessageCatalog.decode nesting doc = .ok c := by
  obtain ⟨os, hp, rfl⟩ := Json.exists_map_of_reordered hj fun o _ => Json.rigid_string _
  rw [← MessageCatalog.foldl_insert_perm hp]
  refine Document.map_of_settle hdoc fun o _ d c hd => ?_
  simp [MessageId.ofKey_key, Document.text_of_settle hd, bind, Except.bind, pure, Except.pure]

/-! ### Unit system files -/

namespace UnitSystemFile

def partsOf (f : UnitSystemFile) (done : List String) : Parts :=
  ⟨if "units" ∈ done then some f.units else none, if "messages" ∈ done then some f.messages else none⟩

theorem decode_toJson {f : UnitSystemFile} (hj : Reordered f.toJson j) (hdoc : doc.settle nesting = .ok j) :
    decode nesting doc = .ok f := by
  cases hj with
  | @object _ others values hothers hp =>
    obtain _ | ⟨_, hmessages, _ | ⟨_, hunits, ⟨⟩⟩⟩ := hothers
    next messages units =>
    have hnames : (values.map Prod.fst).Perm ["messages", "units"] := (hp.map Prod.fst).symm
    refine Json.Record.decodePart_of_settle f.partsOf hdoc rfl (hnames.nodup_iff.mpr (by decide)) ?_ ?_
    · intro v hv
      have hcases := hp.mem_iff.mpr hv
      rcases List.mem_pair.mp hcases with rfl | rfl
      · refine ⟨messagesField, rfl, fun done hdone => ⟨?_, fun d hd => ?_⟩⟩
        · simp [messagesField, partsOf, hdone]
        · simp [messagesField, MessageCatalog.decode_toJson hmessages hd, partsOf, Except.map]
      · refine ⟨unitsField, rfl, fun done hdone => ⟨?_, fun d hd => ?_⟩⟩
        · simp [unitsField, partsOf, hdone]
        · simp [unitsField, UnitSystem.decode_toJson hunits hd, partsOf, Except.map]
    · simp [record, partsOf, hnames.mem_iff]

end UnitSystemFile
end Dimensional
