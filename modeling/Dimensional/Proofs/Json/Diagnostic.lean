import Dimensional.Json.Diagnostic
import Dimensional.Proofs.Json.UnitSystem

/-!
# Diagnostics decode to what was encoded

The tag of a detail may stand anywhere among its members, and the fields of its kind are looked up among the others
(`Detail.readMembers_of_sayMembers`, `Detail.ofMembers_of_perm`).
-/

namespace Dimensional

open Json (Document Fault Reordered StringText)

variable {doc : Document} {nesting : Nat} {j : Json}

/-! ### Spans -/

theorem Json.Document.offset_of_settle {d : Document} {n : Nat} (hd : d.settle nesting = .ok (Json.nat n)) :
    d.offset = .ok n := by
  obtain ⟨t, rfl, ht⟩ := settle_eq_number_iff.mp hd
  simp [Document.offset, ht]

namespace Span

/-- What is read of a span when some of its fields are. -/
def partsOf (s : Span) (done : List String) : Parts :=
  ⟨if "start" ∈ done then some s.start else none, if "end" ∈ done then some s.stop else none⟩

theorem decode_toJson {s : Span} (hj : Reordered s.toJson j) (hdoc : doc.settle nesting = .ok j) :
    record.decodePart nesting doc = .ok s := by
  cases hj with
  | @object _ others values hothers hp =>
    obtain _ | ⟨_, ⟨⟩, _ | ⟨_, ⟨⟩, ⟨⟩⟩⟩ := hothers
    have hnames : (values.map Prod.fst).Perm ["end", "start"] := (hp.map Prod.fst).symm
    refine Json.Record.decodePart_of_settle s.partsOf hdoc rfl (hnames.nodup_iff.mpr (by decide)) ?_ ?_
    · intro v hv
      rcases List.mem_pair.mp (hp.mem_iff.mpr hv) with rfl | rfl
      · refine ⟨stopField, rfl, fun done hdone => ⟨?_, fun d hd => ?_⟩⟩
        · simp [stopField, partsOf, hdone]
        · simp [stopField, Document.offset_of_settle hd, partsOf, Except.map]
      · refine ⟨startField, rfl, fun done hdone => ⟨?_, fun d hd => ?_⟩⟩
        · simp [startField, partsOf, hdone]
        · simp [startField, Document.offset_of_settle hd, partsOf, Except.map]
    · simp [record, partsOf, hnames.mem_iff]

end Span

/-! ### Details -/

namespace Detail

theorem Kind.nodup_names (k : Kind) : ("kind" :: k.fields).Nodup := by
  cases k <;> decide

theorem Kind.ofKey_key (k : Kind) : Kind.ofKey k.key = .ok k := by
  cases k <;> rfl

theorem Kind.decode_of_settle {d : Document} {k : Kind} (hd : d.settle nesting = .ok (.string k.key)) :
    Kind.decode d = .ok k := by
  obtain ⟨t, rfl, ht⟩ := Document.settle_eq_string_iff.mp hd
  simp [Kind.decode, ht, Except.bind, Kind.ofKey_key]

/-- The members beside the tag. -/
def untagged (values : List (String × Json)) : List (String × Json) :=
  values.filter fun v => v.1 != "kind"

/-- Members without the tag are kept. -/
theorem readMembers_of_not_mem {members : List (StringText × Document)} {values : List (String × Json)}
    (hm : Document.SayMembers nesting members values) (hnot : "kind" ∉ values.map Prod.fst) (kind : Option Kind)
    (read : List (String × Json)) :
    readMembers nesting kind read members = .ok (kind, read.reverse ++ values) := by
  induction hm generalizing read with
  | nil => simp [readMembers]
  | @cons m v members values hmv _ ih =>
    obtain ⟨key, value⟩ := m
    rw [List.map_cons, List.mem_cons, not_or] at hnot
    have hrest := ih hnot.2 (v :: read)
    simp [readMembers, hmv.1, hmv.2, Ne.symm hnot.1, hrest, bind, Except.bind]

/-- The tag is found among the members, and the others are kept. -/
theorem readMembers_of_sayMembers {members : List (StringText × Document)} {values : List (String × Json)}
    (hm : Document.SayMembers nesting members values) (hnodup : (values.map Prod.fst).Nodup) {k : Kind}
    (hk : ("kind", Json.string k.key) ∈ values) (read : List (String × Json)) :
    readMembers nesting Option.none read members = .ok (some k, read.reverse ++ untagged values) := by
  induction hm generalizing read with
  | nil => cases hk
  | @cons m v members values hmv hrest ih =>
    obtain ⟨key, value⟩ := m
    obtain ⟨hnot, hnodup⟩ := List.nodup_cons.mp hnodup
    rcases List.mem_cons.mp hk with rfl | hmem
    · -- nothing behind the tag is a tag
      have huntagged : untagged values = values := by
        refine List.filter_eq_self.mpr fun w hw => bne_iff_ne.mpr fun heq => ?_
        exact hnot (List.mem_map.mpr ⟨w, hw, heq⟩)
      have hread := readMembers_of_not_mem hrest hnot (some k) read
      rw [untagged, List.filter_cons_of_neg (by simp), ← untagged, huntagged]
      simpa [readMembers, hmv.1, Kind.decode_of_settle hmv.2, bind, Except.bind] using hread
    · have hname : v.1 ≠ "kind" := fun heq => hnot (heq ▸ List.mem_map_of_mem hmem)
      have hread := ih hnodup hmem (v :: read)
      rw [untagged, List.filter_cons_of_pos (by simpa using hname), ← untagged]
      simpa [readMembers, hmv.1, hmv.2, hname, bind, Except.bind] using hread

theorem checkMembers_eq_ok {kind : Kind} {values : List (String × Json)} (hnodup : (values.map Prod.fst).Nodup)
    (hcheck : ∀ v ∈ values, checkField kind v.1 v.2 = .ok ()) {seen : List String}
    (hseen : ∀ v ∈ values, v.1 ∉ seen) : checkMembers kind seen values = .ok () := by
  induction values generalizing seen with
  | nil => rfl
  | cons v values ih =>
    obtain ⟨hnot, hnodup⟩ := List.nodup_cons.mp hnodup
    have hrest : ∀ w ∈ values, checkField kind w.1 w.2 = .ok () := fun w hw => hcheck w (List.mem_cons_of_mem _ hw)
    have hunseen : ∀ w ∈ values, w.1 ∉ seen := fun w hw => hseen w (List.mem_cons_of_mem _ hw)
    rw [checkMembers]
    split
    · have hunseen' : ∀ w ∈ values, w.1 ∉ v.1 :: seen := by
        intro w hw hmem
        rcases List.mem_cons.mp hmem with heq | hmem
        · exact hnot (heq ▸ List.mem_map_of_mem hw)
        · exact hunseen w hw hmem
      rw [if_neg (hseen v (by simp)), hcheck v (by simp)]
      exact ih hnodup hrest hunseen'
    · exact ih hnodup hrest hunseen

theorem field_of_mem {values : List (String × Json)} (hnodup : (values.map Prod.fst).Nodup) {name : String}
    {value : Json} (hmem : (name, value) ∈ values) : field values name = .ok value := by
  have hfind : values.find? (fun m => m.1 == name) = some (name, value) := by
    induction values with
    | nil => cases hmem
    | cons v values ih =>
      obtain ⟨hnot, hnodup⟩ := List.nodup_cons.mp hnodup
      rcases List.mem_cons.mp hmem with rfl | hmem
      · simp
      · have hne : v.1 ≠ name := fun heq => hnot (heq ▸ List.mem_map_of_mem hmem)
        rw [List.find?_cons_of_neg (by simpa using hne), ih hnodup hmem]
  rw [field, hfind]

theorem mapM_field {values fields : List (String × Json)} (hnodup : (values.map Prod.fst).Nodup)
    (hmem : ∀ f ∈ fields, f ∈ values) : (fields.map Prod.fst).mapM (field values) = .ok (fields.map Prod.snd) := by
  induction fields with
  | nil => rfl
  | cons f fields ih =>
    have hfirst := field_of_mem hnodup (hmem f (by simp))
    have hrest := ih fun g hg => hmem g (List.mem_cons_of_mem _ hg)
    simp [hfirst, hrest, bind, Except.bind, pure, Except.pure]

/-- **Fields are looked up, in whatever order they stand.** -/
theorem ofMembers_of_perm {kind : Kind} {values fields : List (String × Json)} (hp : values.Perm fields)
    (hnames : fields.map Prod.fst = kind.fields) (hcheck : ∀ v ∈ fields, checkField kind v.1 v.2 = .ok ()) :
    ofMembers kind values = ofFields kind (fields.map Prod.snd) := by
  have hnodup : (values.map Prod.fst).Nodup := by
    rw [(hp.map Prod.fst).nodup_iff, hnames]
    exact kind.nodup_names.of_cons
  have hchecked : checkMembers kind [] values = .ok () :=
    checkMembers_eq_ok hnodup (fun v hv => hcheck v (hp.mem_iff.mp hv)) fun _ _ => List.not_mem_nil
  have hfields := mapM_field hnodup fun f hf => hp.mem_iff.mpr hf
  rw [hnames] at hfields
  simp [ofMembers, hchecked, hfields, bind, Except.bind]

theorem pathOfJson_strings (path : List String) : pathOfJson (.list (path.map .string)) = .ok path := by
  rw [pathOfJson]
  induction path with
  | nil => rfl
  | cons name path ih => simp [textOfJson, ih, bind, Except.bind, pure, Except.pure]

/-! ### Kinds and fields of details -/

def kind : Detail → Kind
  | .none => .none
  | .token _ => .unexpectedToken
  | .cycle .. => .circularReference
  | .malformed _ => .internalError

/-- The fields beside the tag, in the order of `Kind.fields`. -/
def fields : Detail → List (String × Json)
  | .none => []
  | .token surface => [("token", .string surface)]
  | .cycle unit path => [("unit", .string unit), ("path", .list (path.map .string))]
  | .malformed text => [("detail", .string text)]

variable (detail : Detail)

theorem exists_toJson_eq : ∃ members, detail.toJson = .object members ∧
    members.Perm (("kind", .string detail.kind.key) :: detail.fields) := by
  cases detail with
  | none => exact ⟨_, rfl, .refl _⟩
  | token surface => exact ⟨_, rfl, .refl _⟩
  | cycle unit path => exact ⟨_, rfl, .cons _ (.swap _ _ _)⟩
  | malformed text => exact ⟨_, rfl, .swap _ _ _⟩

theorem rigid_of_mem_fields : ∀ f ∈ detail.fields, f.2.Rigid := by
  cases detail with
  | none => simp [fields]
  | token surface => simp [fields, Json.rigid_string]
  | malformed text => simp [fields, Json.rigid_string]
  | cycle unit path =>
    have hpath : (Json.list (path.map .string)).Rigid := by
      refine Json.rigid_list fun item hitem => ?_
      obtain ⟨name, -, rfl⟩ := List.mem_map.mp hitem
      exact Json.rigid_string name
    simp [fields, Json.rigid_string, hpath]

theorem map_fst_fields : detail.fields.map Prod.fst = detail.kind.fields := by
  cases detail <;> rfl

theorem checkField_of_mem : ∀ f ∈ detail.fields, checkField detail.kind f.1 f.2 = .ok () := by
  cases detail <;> simp [fields, kind, checkField, textOfJson, pathOfJson_strings, Except.map]

theorem ofFields_fields : ofFields detail.kind (detail.fields.map Prod.snd) = .ok detail := by
  cases detail <;>
    simp [fields, kind, ofFields, textOfJson, pathOfJson_strings, Except.map, bind, Except.bind, pure, Except.pure]

variable {detail}

theorem untagged_of_perm {values : List (String × Json)}
    (hp : values.Perm (("kind", .string detail.kind.key) :: detail.fields)) : (untagged values).Perm detail.fields := by
  have hfilter : untagged (("kind", .string detail.kind.key) :: detail.fields) = detail.fields := by
    cases detail <;> rfl
  exact hfilter ▸ hp.filter _

/-- **The fields beside the tag are decoded by its kind.** -/
theorem decode_toJson (hj : Reordered detail.toJson j) (hdoc : doc.settle nesting = .ok j) :
    decode nesting doc = .ok detail := by
  obtain ⟨members, hmembers, hp⟩ := detail.exists_toJson_eq
  rw [hmembers] at hj
  have hrigid : ∀ m ∈ members, m.2.Rigid := by
    intro m hm
    rcases List.mem_cons.mp (hp.mem_iff.mp hm) with rfl | hm
    · exact Json.rigid_string _
    · exact detail.rigid_of_mem_fields m hm
  cases hj with
  | @object _ others values hothers hpv =>
    rw [hothers.eq_of_rigid hrigid] at hpv
    have hvalues : values.Perm (("kind", .string detail.kind.key) :: detail.fields) := hpv.symm.trans hp
    have hnodup : (values.map Prod.fst).Nodup := by
      rw [(hvalues.map Prod.fst).nodup_iff, List.map_cons, map_fst_fields]
      exact detail.kind.nodup_names
    obtain ⟨docs, rfl, hn, hm⟩ := Document.settle_eq_object_iff.mp hdoc
    have hread := readMembers_of_sayMembers hm hnodup (hvalues.mem_iff.mpr List.mem_cons_self) []
    have hof := ofMembers_of_perm (untagged_of_perm hvalues) detail.map_fst_fields detail.checkField_of_mem
    rw [List.reverse_nil, List.nil_append] at hread
    simp [decode, hn, hread, Document.finish, hof, ofFields_fields, bind, Except.bind]

end Detail

/-! ### Diagnostics -/

theorem MessageId.decode_of_settle {id : MessageId} (hdoc : doc.settle nesting = .ok (.string id.key)) (n : Nat) :
    MessageId.decode n doc = .ok id := by
  obtain ⟨t, rfl, ht⟩ := Document.settle_eq_string_iff.mp hdoc
  simp [MessageId.decode, ht, Except.bind, MessageId.ofKey_key]

namespace Diagnostic

def partsOf (d : Diagnostic) (done : List String) : Parts :=
  ⟨if "id" ∈ done then some d.id else none, if "message" ∈ done then some d.message else none,
    if "span" ∈ done then some d.span else none, if "data" ∈ done then some d.detail else none⟩

theorem decode_toJson {d : Diagnostic} (hj : Reordered d.toJson j) (hdoc : doc.settle nesting = .ok j) :
    decode nesting doc = .ok d := by
  cases hj with
  | @object _ others values hothers hp =>
    obtain _ | ⟨_, hdetail, _ | ⟨_, ⟨⟩, _ | ⟨_, ⟨⟩, _ | ⟨_, hspan, ⟨⟩⟩⟩⟩⟩ := hothers
    have hnames : (values.map Prod.fst).Perm ["data", "id", "message", "span"] := (hp.map Prod.fst).symm
    refine Json.Record.decodePart_of_settle d.partsOf hdoc rfl (hnames.nodup_iff.mpr (by decide)) ?_ ?_
    · intro v hv
      have hcases := hp.mem_iff.mpr hv
      simp only [List.mem_cons, List.not_mem_nil, or_false] at hcases
      rcases hcases with rfl | rfl | rfl | rfl
      · refine ⟨detailField, rfl, fun done hdone => ⟨?_, fun doc hdoc => ?_⟩⟩
        · simp [detailField, partsOf, hdone]
        · simp [detailField, Detail.decode_toJson hdetail hdoc, partsOf, Except.map]
      · refine ⟨idField, rfl, fun done hdone => ⟨?_, fun doc hdoc => ?_⟩⟩
        · simp [idField, partsOf, hdone]
        · simp [idField, MessageId.decode_of_settle hdoc, partsOf, Except.map]
      · refine ⟨messageField, rfl, fun done hdone => ⟨?_, fun doc hdoc => ?_⟩⟩
        · simp [messageField, partsOf, hdone]
        · simp [messageField, Document.text_of_settle hdoc, partsOf, Except.map]
      · refine ⟨spanField, rfl, fun done hdone => ⟨?_, fun doc hdoc => ?_⟩⟩
        · simp [spanField, partsOf, hdone]
        · simp [spanField, Span.decode_toJson hspan hdoc, partsOf, Except.map]
    · simp [record, partsOf, hnames.mem_iff]

end Diagnostic
end Dimensional
