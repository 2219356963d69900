import Dimensional.Json.Decode
import Mathlib.Data.List.Forall2
import Mathlib.Data.List.Nodup

/-!
# What decoding takes from a document

A document has a JSON value only if it holds no break, and then the value tells which kind of document it is and what the
values of its parts are (`Document.settle_eq_object_iff` and its neighbours). Maps and records are decoded by going
through the members of an object, so what they decode to follows from what each member adds
(`Document.foldMembers_cons_eq_ok_iff`, `Record.decode_of_settle`).
-/

namespace Dimensional
namespace Json

variable {ε α β σ : Type}

@[simp]
theorem bind_eq_ok_iff {x : Except ε α} {f : α → Except ε β} {b : β} :
    (x >>= f) = .ok b ↔ ∃ a, x = .ok a ∧ f a = .ok b := by
  cases x <;> simp [bind, Except.bind]

@[simp]
theorem map_eq_ok_iff {x : Except ε α} {f : α → β} {b : β} : x.map f = .ok b ↔ ∃ a, x = .ok a ∧ f a = b := by
  cases x <;> simp [Except.map]

@[simp]
theorem functor_map_eq_ok_iff {x : Except ε α} {f : α → β} {b : β} : f <$> x = .ok b ↔ ∃ a, x = .ok a ∧ f a = b :=
  map_eq_ok_iff

@[simp]
theorem pure_eq_ok_iff {a b : α} : (pure a : Except ε α) = .ok b ↔ a = b := by
  simp [pure, Except.pure]

namespace Document

variable {d : Document} {nesting : Nat} {ending : Option Break} {key : StringText} {value : Document}
  {rest : List (StringText × Document)}

/-! ### Faults -/

theorem mismatch_ne_ok (expected : String) (d : Document) (a : α) : d.mismatch expected ≠ .ok a := by
  rw [mismatch]
  split <;> nofun

theorem finish_eq_ok_iff {u : Unit} : finish ending = .ok u ↔ ending = none := by
  cases ending <;> simp [finish]

/-! ### Values of documents -/

theorem settleItems_eq_ok_iff {items : List Document} {values : List Json} :
    settleItems nesting items = .ok values ↔ List.Forall₂ (fun d j => d.settle nesting = .ok j) items values := by
  induction items generalizing values with
  | nil => simp [settleItems, eq_comm]
  | cons item rest ih =>
    rw [settleItems, List.forall₂_cons_left_iff]
    simp only [bind_eq_ok_iff, pure_eq_ok_iff, ih]
    constructor
    · rintro ⟨j, hj, js, hjs, rfl⟩
      exact ⟨j, js, hj, hjs, rfl⟩
    · rintro ⟨j, js, hj, hjs, rfl⟩
      exact ⟨j, hj, js, hjs, rfl⟩

/-- The members of an object say a list of names and values. -/
def SayMembers (nesting : Nat) : List (StringText × Document) → List (String × Json) → Prop :=
  List.Forall₂ fun m v => m.1.decode = .ok v.1 ∧ m.2.settle nesting = .ok v.2

theorem settleMembers_eq_ok_iff {members : List (StringText × Document)} {values : List (String × Json)} :
    settleMembers nesting members = .ok values ↔ SayMembers nesting members values := by
  induction members generalizing values with
  | nil => simp [settleMembers, SayMembers, eq_comm]
  | cons member rest ih =>
    obtain ⟨key, value⟩ := member
    rw [settleMembers, SayMembers, List.forall₂_cons_left_iff]
    simp only [bind_eq_ok_iff, pure_eq_ok_iff, ih]
    constructor
    · rintro ⟨k, hk, j, hj, vs, hvs, rfl⟩
      exact ⟨(k, j), vs, ⟨hk, hj⟩, hvs, rfl⟩
    · rintro ⟨⟨k, j⟩, vs, ⟨hk, hj⟩, hvs, rfl⟩
      exact ⟨k, hk, j, hj, vs, hvs, rfl⟩

theorem settle_eq_number_iff {n : Number} :
    d.settle nesting = .ok (.number n) ↔ ∃ t, d = .number t ∧ t.value = .ok n := by
  by_cases hn : nesting = 0 <;> cases d <;> simp [settle, hn]

theorem settle_eq_string_iff {text : String} :
    d.settle nesting = .ok (.string text) ↔ ∃ t, d = .string t ∧ t.decode = .ok text := by
  by_cases hn : nesting = 0 <;> cases d <;> simp [settle, hn]

theorem settle_eq_list_iff {values : List Json} :
    d.settle nesting = .ok (.list values) ↔
      ∃ items, d = .list items none ∧ nesting ≠ 0 ∧
        List.Forall₂ (fun d j => d.settle (nesting - 1) = .ok j) items values := by
  by_cases hn : nesting = 0 <;> cases d <;>
    simp [settle, hn, finish_eq_ok_iff, settleItems_eq_ok_iff, and_comm]

theorem settle_eq_object_iff {values : List (String × Json)} :
    d.settle nesting = .ok (.object values) ↔
      ∃ members, d = .object members none ∧ nesting ≠ 0 ∧ SayMembers (nesting - 1) members values := by
  by_cases hn : nesting = 0 <;> cases d <;>
    simp [settle, hn, finish_eq_ok_iff, settleMembers_eq_ok_iff, and_comm]

/-! ### Maps -/

theorem foldMembers_cons_eq_ok_iff {add : σ → String → Document → Except Fault σ} {s r : σ} :
    foldMembers add s ((key, value) :: rest) = .ok r ↔
      ∃ k s', key.decode = .ok k ∧ add s k value = .ok s' ∧ foldMembers add s' rest = .ok r := by
  simp [foldMembers]

/-- Members that say encoded entries add these one after the other. -/
theorem foldMembers_of_sayMembers {add : σ → String → Document → Except Fault σ} {encode : β → String × Json}
    {step : σ → β → σ} {members : List (StringText × Document)} {entries : List β}
    (hm : SayMembers nesting members (entries.map encode))
    (hadd : ∀ e ∈ entries, ∀ d s, d.settle nesting = .ok (encode e).2 → add s (encode e).1 d = .ok (step s e)) (s : σ) :
    foldMembers add s members = .ok (entries.foldl step s) := by
  induction entries generalizing members s with
  | nil =>
    cases hm
    rfl
  | cons e entries ih =>
    cases hm with
    | cons hfirst hrest =>
      have he := hadd e (by simp) _ s hfirst.2
      exact foldMembers_cons_eq_ok_iff.mpr
        ⟨_, step s e, hfirst.1, he, ih hrest (fun e' he' => hadd e' (List.mem_cons_of_mem _ he')) _⟩

theorem map_eq_ok_iff {start s : σ} {add : Nat → σ → String → Document → Except Fault σ} :
    d.map nesting start add = .ok s ↔
      ∃ members, d = .object members none ∧ nesting ≠ 0 ∧ foldMembers (add (nesting - 1)) start members = .ok s := by
  by_cases hn : nesting = 0 <;> cases d <;> simp [map, hn, finish_eq_ok_iff, mismatch_ne_ok, and_comm]

theorem map_of_settle {start : σ} {add : Nat → σ → String → Document → Except Fault σ} {encode : β → String × Json}
    {step : σ → β → σ} {entries : List β} (hd : d.settle nesting = .ok (.object (entries.map encode)))
    (hadd : ∀ e ∈ entries, ∀ d s, d.settle (nesting - 1) = .ok (encode e).2 →
      add (nesting - 1) s (encode e).1 d = .ok (step s e)) :
    d.map nesting start add = .ok (entries.foldl step start) := by
  obtain ⟨members, rfl, hn, hm⟩ := settle_eq_object_iff.mp hd
  exact map_eq_ok_iff.mpr ⟨members, rfl, hn, foldMembers_of_sayMembers hm hadd start⟩

end Document

/-! ### Records -/

namespace Record

variable {r : Record σ α} {nesting : Nat} {d : Document} {state : List String → σ}

/-- A member that a record has a field for: the state, which depends on the fields that are read, takes its value. -/
def Takes (r : Record σ α) (nesting : Nat) (state : List String → σ) (v : String × Json) : Prop :=
  ∃ field, r.fields.find? (fun field => field.name == v.1) = some field ∧
    ∀ done, v.1 ∉ done → field.isSet (state done) = false ∧
      ∀ d : Document, d.settle nesting = .ok v.2 → field.set nesting (state done) d = .ok (state (v.1 :: done))

theorem foldMembers_of_takes {members : List (StringText × Document)} {values : List (String × Json)}
    (hm : Document.SayMembers nesting members values) (htakes : ∀ v ∈ values, r.Takes nesting state v)
    {done : List String} (hnodup : ((values.map Prod.fst).reverse ++ done).Nodup) :
    r.foldMembers nesting (state done) members = .ok (state ((values.map Prod.fst).reverse ++ done)) := by
  induction hm generalizing done with
  | nil => rfl
  | @cons m v members values hmv _ ih =>
    obtain ⟨key, value⟩ := m
    obtain ⟨field, hfind, htake⟩ := htakes v (by simp)
    rw [List.map_cons, List.reverse_cons, List.append_assoc, List.singleton_append] at hnodup ⊢
    obtain ⟨hunset, hset⟩ := htake done (List.nodup_cons.mp (List.nodup_append.mp hnodup).2.1).1
    have hrest := ih (fun w hw => htakes w (List.mem_cons_of_mem _ hw)) hnodup
    simpa [foldMembers, hmv.1, hfind, hunset, hset value hmv.2] using hrest

/-- **A record is decoded from an object with its fields in any order.** -/
theorem decode_of_settle (state : List String → σ) {values : List (String × Json)} {a : α}
    (hd : d.settle nesting = .ok (.object values)) (hstart : state [] = r.start)
    (hnodup : (values.map Prod.fst).Nodup) (htakes : ∀ v ∈ values, r.Takes (nesting - 1) state v)
    (hbuild : r.build (state (values.map Prod.fst).reverse) = .ok a) : r.decode nesting d = .ok a := by
  obtain ⟨members, rfl, hn, hm⟩ := Document.settle_eq_object_iff.mp hd
  have hnodup' : ((values.map Prod.fst).reverse ++ []).Nodup := by
    rw [List.append_nil]
    exact List.nodup_reverse.mpr hnodup
  have hfold := foldMembers_of_takes hm htakes hnodup'
  rw [List.append_nil, hstart] at hfold
  simp [decode, hn, hfold, Document.finish, locate, hbuild, bind, Except.bind]

theorem decodePart_of_settle (state : List String → σ) {values : List (String × Json)} {a : α}
    (hd : d.settle nesting = .ok (.object values)) (hstart : state [] = r.start)
    (hnodup : (values.map Prod.fst).Nodup) (htakes : ∀ v ∈ values, r.Takes (nesting - 1) state v)
    (hbuild : r.build (state (values.map Prod.fst).reverse) = .ok a) : r.decodePart nesting d = .ok a := by
  rw [decodePart, decode_of_settle state hd hstart hnodup htakes hbuild]

end Record

/-! ### Texts -/

/-- A text that holds a JSON value and blanks. -/
def IsTextOf (text : String) (j : Json) : Prop :=
  decodeText (Document.settle greatestNesting) text = .ok j

theorem IsTextOf.iff {text : String} {j : Json} : IsTextOf text j ↔
    (Document.readStart (Glyph.ofText text)).1.settle greatestNesting = .ok j ∧
      (Document.skipSpace ((Document.readStart (Glyph.ofText text)).2.getD [])).isEmpty = true := by
  rw [IsTextOf, Json.decodeText]
  cases hd : (Document.readStart (Glyph.ofText text)).1.settle greatestNesting with
  | error f => simp [hd]
  | ok j' =>
    simp only [hd]
    split <;> simp_all

/-- What decodes all documents with a value decodes all texts of it. -/
theorem IsTextOf.decodeText {text : String} {j : Json} {a : α} (h : IsTextOf text j)
    {decode : Document → Except Fault α} (hdecode : ∀ d, d.settle greatestNesting = .ok j → decode d = .ok a) :
    Json.decodeText decode text = .ok a := by
  obtain ⟨hsettle, hrest⟩ := IsTextOf.iff.mp h
  simp [Json.decodeText, hdecode _ hsettle, hrest]

/-- What decodes all documents with a value decodes the start of the bytes of all texts of it. -/
theorem IsTextOf.decodeStart {text : String} {j : Json} {a : α} (h : IsTextOf text j) {decode : Document → Except ε α}
    (hdecode : ∀ d, d.settle greatestNesting = .ok j → decode d = .ok a) :
    Json.decodeStart decode text.toUTF8 = .ok a := by
  rw [Json.decodeStart, Utf8.glyphs_toUTF8]
  exact hdecode _ (IsTextOf.iff.mp h).1

end Json
end Dimensional
