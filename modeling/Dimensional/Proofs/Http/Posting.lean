import Dimensional.Http.Service
import Dimensional.Proofs.Json.Compact
import Dimensional.Proofs.Json.UnitSystem

/-!
# Requests that bring a value

A request is answered by the value that its body starts with if it says that its body is JSON and the body is not too
large (`Request.Brings`). Values are posted as compact JSON; a character of a string takes at most six bytes of that, so
sources of usual lengths can be posted (`bringsSource_post`, `bringsPair_post`).
-/

namespace Dimensional

open Json (Document Misread)

/-! ### Sizes of texts -/

namespace Json

theorem utf8ByteSize_stringChar (c : Char) :
    1 ≤ (String.ofList (stringChar c)).utf8ByteSize ∧ (String.ofList (stringChar c)).utf8ByteSize ≤ 6 := by
  unfold stringChar
  split
  any_goals decide
  next =>
  split
  · next hc =>
    have hescape : ∀ n < 0x20, 1 ≤ (String.ofList (['\\', 'u', '0', '0'] ++ twoHexDigits n)).utf8ByteSize ∧
        (String.ofList (['\\', 'u', '0', '0'] ++ twoHexDigits n)).utf8ByteSize ≤ 6 := by decide
    exact hescape c.toNat hc
  · rw [← String.singleton_eq_ofList, String.utf8ByteSize_singleton]
    exact ⟨c.utf8Size_pos, Nat.le_trans c.utf8Size_le_four (by decide)⟩

theorem utf8ByteSize_stringChars (cs : List Char) :
    cs.length ≤ (String.ofList (cs.flatMap stringChar)).utf8ByteSize ∧
      (String.ofList (cs.flatMap stringChar)).utf8ByteSize ≤ 6 * cs.length := by
  induction cs with
  | nil => decide
  | cons c cs ih =>
    have hc := utf8ByteSize_stringChar c
    rw [List.flatMap_cons, String.ofList_append, String.utf8ByteSize_append, List.length_cons]
    omega

/-- A character of a string takes at least one byte and at most six. -/
theorem utf8ByteSize_quote (text : String) :
    text.length + 2 ≤ (quote text).utf8ByteSize ∧ (quote text).utf8ByteSize ≤ 6 * text.length + 2 := by
  have hchars := utf8ByteSize_stringChars text.toList
  have hquote : (String.ofList ['"']).utf8ByteSize = 1 := by decide
  have htext : quote text =
      String.ofList ['"'] ++ String.ofList (text.toList.flatMap stringChar) ++ String.ofList ['"'] := by
    rw [quote, ← String.ofList_append, ← String.ofList_append]
    rfl
  rw [String.length_toList] at hchars
  rw [htext, String.utf8ByteSize_append, String.utf8ByteSize_append, hquote]
  omega

end Json

namespace Http

/-! ### Requests with a value -/

variable {α : Type} {r : Resolver} {q : Request} {route : String} {decode : Document → Except Misread α} {a : α}

/-- A request to a route whose body starts with a value and is read. -/
structure Request.Brings (q : Request) (route : String) (decode : Document → Except Misread α) (a : α) : Prop where
  method : q.method = "POST"
  route : q.route = route
  saysJson : q.saysJson = true
  fits : q.body.size ≤ greatestBody
  decodes : Json.decodeStart decode q.body = .ok a

theorem Request.Brings.withJson (h : q.Brings route decode a) (answer : α → Response) :
    withJson q decode answer = answer a := by
  simp [Http.withJson, h.saysJson, Nat.not_lt.mpr h.fits, h.decodes]

abbrev Request.BringsSource (q : Request) (source : String) : Prop :=
  q.Brings "/parse" (parseRecord.decode Json.greatestNesting) source

abbrev Request.BringsPair (q : Request) (left right : String) : Prop :=
  q.Brings "/check" (checkRecord.decode Json.greatestNesting) (left, right)

theorem respond_parse (hmethod : q.method = "POST") (hroute : q.route = "/parse") : respond r q =
    (withJson q (parseRecord.decode Json.greatestNesting) fun source => .ofResult (parseAnswer r source), r) := by
  simp [respond, hmethod, hroute]

theorem respond_check (hmethod : q.method = "POST") (hroute : q.route = "/check") : respond r q =
    (withJson q (checkRecord.decode Json.greatestNesting) fun s => .ofResult (checkAnswer r s.1 s.2), r) := by
  simp [respond, hmethod, hroute]

theorem respond_of_bringsSource {source : String} (h : q.BringsSource source) :
    respond r q = (.ofResult (parseAnswer r source), r) := by
  rw [respond_parse h.method h.route, h.withJson]

theorem respond_of_bringsPair {left right : String} (h : q.BringsPair left right) :
    respond r q = (.ofResult (checkAnswer r left right), r) := by
  rw [respond_check h.method h.route, h.withJson]

/-! ### Posted values -/

/-- A value posted as compact JSON. -/
def post (target : String) (j : Json) : Request := ⟨"POST", target, some "application/json", j.compact.toUTF8⟩

theorem brings_post {j : Json} (hroute : (post route .null).route = route) (hplain : j.Plain Json.greatestNesting)
    (hsize : j.compact.utf8ByteSize ≤ greatestBody)
    (hdecode : ∀ d : Document, d.settle Json.greatestNesting = .ok j → decode d = .ok a) :
    (post route j).Brings route decode a :=
  ⟨rfl, hroute, rfl, hsize, (Json.isTextOf_compact hplain).decodeStart hdecode⟩

/-- A posted value that does not fit is not read. -/
theorem withJson_post_of_tooLarge {j : Json} (target : String) (answer : α → Response)
    (hsize : greatestBody < j.compact.utf8ByteSize) : withJson (post target j) decode answer = tooLarge := by
  have hsays : (post target j).saysJson = true := rfl
  have hbody : (post target j).body.size = j.compact.utf8ByteSize := rfl
  simp [withJson, hsays, hbody, hsize]

/-- The route is the same whatever is posted. -/
theorem route_post (target : String) (j : Json) : (post target j).route = (post target .null).route := rfl

theorem respond_parse_of_tooLarge {j : Json} (hsize : greatestBody < j.compact.utf8ByteSize) :
    respond r (post "/parse" j) = (tooLarge, r) := by
  have hroute : (post "/parse" j).route = "/parse" := (route_post _ _).trans (by decide)
  rw [respond_parse rfl hroute, withJson_post_of_tooLarge _ _ hsize]

theorem respond_check_of_tooLarge {j : Json} (hsize : greatestBody < j.compact.utf8ByteSize) :
    respond r (post "/check" j) = (tooLarge, r) := by
  have hroute : (post "/check" j).route = "/check" := (route_post _ _).trans (by decide)
  rw [respond_check rfl hroute, withJson_post_of_tooLarge _ _ hsize]

def sourceJson (source : String) : Json := .object [("source", .string source)]

def pairJson (left right : String) : Json := .object [("left", .string left), ("right", .string right)]

theorem utf8ByteSize_sourceJson (source : String) :
    (sourceJson source).compact.utf8ByteSize ≤ 6 * source.length + 13 := by
  have hsource := Json.utf8ByteSize_quote source
  have hfront : ("\x7b" ++ (Json.quote "source" ++ ":")).utf8ByteSize = 10 := by decide
  have hcompact : (sourceJson source).compact =
      "\x7b" ++ (Json.quote "source" ++ ":") ++ Json.quote source ++ "\x7d" := by
    simp [sourceJson, Json.compact, Json.compactMembers, String.append_assoc]
  have hclose : "\x7d".utf8ByteSize = 1 := by decide
  rw [hcompact, String.utf8ByteSize_append, String.utf8ByteSize_append, hfront, hclose]
  omega

theorem utf8ByteSize_pairJson (left right : String) :
    left.length + right.length ≤ (pairJson left right).compact.utf8ByteSize ∧
      (pairJson left right).compact.utf8ByteSize ≤ 6 * (left.length + right.length) + 22 := by
  have hleft := Json.utf8ByteSize_quote left
  have hright := Json.utf8ByteSize_quote right
  have hfront : ("\x7b" ++ (Json.quote "left" ++ ":")).utf8ByteSize = 8 := by decide
  have hmiddle : ("," ++ (Json.quote "right" ++ ":")).utf8ByteSize = 9 := by decide
  have hclose : "\x7d".utf8ByteSize = 1 := by decide
  have hcompact : (pairJson left right).compact = "\x7b" ++ (Json.quote "left" ++ ":") ++ Json.quote left ++
      ("," ++ (Json.quote "right" ++ ":")) ++ Json.quote right ++ "\x7d" := by
    simp [pairJson, Json.compact, Json.compactMembers, String.append_assoc]
  rw [hcompact]
  simp only [String.utf8ByteSize_append] at hfront hmiddle ⊢
  omega

/-- A record with a field for a source takes the source. -/
theorem takes_source {σ β : Type} {record : Json.Record σ β} {nesting : Nat} {state : List String → σ}
    {name text : String} {get : σ → Option String} {put : σ → String → σ}
    (hfind : record.fields.find? (fun field => field.name == name) = some (sourceField name get put))
    (hget : ∀ done, name ∉ done → get (state done) = none)
    (hput : ∀ done, name ∉ done → put (state done) text = state (name :: done)) :
    record.Takes nesting state (name, .string text) := by
  refine ⟨_, hfind, fun done hdone => ⟨?_, fun d hd => ?_⟩⟩
  · simp [sourceField, hget done hdone]
  · simp [sourceField, Json.Document.text_of_settle hd, Except.map, hput done hdone]

/-- **A source can be posted if its body fits.** -/
theorem bringsSource_post {source : String} (hsize : (sourceJson source).compact.utf8ByteSize ≤ greatestBody) :
    (post "/parse" (sourceJson source)).BringsSource source := by
  refine brings_post (by decide) ?_ hsize fun d hd => ?_
  · intro m hm
    obtain rfl := List.mem_singleton.mp hm
    exact Json.plain_string _ _
  · refine Json.Record.decode_of_settle (fun done => if "source" ∈ done then some source else none) hd rfl
      (by simp) ?_ (by simp [parseRecord])
    intro v hv
    obtain rfl := List.mem_singleton.mp hv
    exact takes_source rfl (by simp) (by simp)

/-- **Two sources can be posted if their body fits.** -/
theorem bringsPair_post {left right : String} (hsize : (pairJson left right).compact.utf8ByteSize ≤ greatestBody) :
    (post "/check" (pairJson left right)).BringsPair left right := by
  refine brings_post (by decide) ?_ hsize fun d hd => ?_
  · intro m hm
    rcases List.mem_pair.mp hm with rfl | rfl
    · exact Json.plain_string _ _
    · exact Json.plain_string _ _
  · refine Json.Record.decode_of_settle (fun done => (if "left" ∈ done then some left else none,
      if "right" ∈ done then some right else none)) hd rfl (by simp) ?_ (by simp [checkRecord])
    intro v hv
    rcases List.mem_pair.mp hv with rfl | rfl
    · exact takes_source rfl (by simp) (by simp)
    · exact takes_source rfl (by simp) (by simp)

end Http
end Dimensional
