import Dimensional.Http.MediaType
import Dimensional.Json.Diagnostic
import Dimensional.Resolver

/-!
# Service

Answers to requests over HTTP. A resolver is shared by all requests; only loading units changes it, so the service is a
function from a resolver and a request to a response and the resolver for the next request.
-/

namespace Dimensional

def programName : String := "metrum"

def programVersion : String := "0.3.0"

namespace Http

open Json (Document Fault RecordField Misread Record)

/-- A request. Its target is a path or a whole address, perhaps with a query. Its body is any bytes. -/
structure Request where
  method : String
  target : String
  contentType : Option String
  body : ByteArray
deriving Inhabited

/-- What a response holds. -/
inductive Content where
  | none
  | text (text : String)
  | json (value : Json)
deriving Inhabited

structure Response where
  status : Nat
  content : Content
deriving Inhabited

namespace Response

def json (value : Json) : Response := ⟨200, .json value⟩

def empty (status : Nat) : Response := ⟨status, .none⟩

/-- The status of a failure. -/
def statusOf : Failure → Nat
  | .invalidUnits _ | .unitsMismatch .. => 422
  | .limitExceeded _ => 413
  | _ => 400

/-- A failure with its diagnostics. -/
def ofFailure (f : Failure) : Response :=
  let diagnostics :=
    if f.diagnostics.isEmpty then [] else [("diagnostics", Json.list (f.diagnostics.map Diagnostic.toJson))]
  ⟨statusOf f, .json (.object (diagnostics ++ [("error", .string f.message)]))⟩

def ofResult : Except Failure Json → Response
  | .ok value => json value
  | .error f => ofFailure f

end Response

/-! ### Bodies -/

/-- The greatest size of a body in bytes. -/
def greatestBody : Nat := 2097152

/-- A body that is not read because it is too large. -/
def tooLarge : Response := ⟨413, .text "Failed to buffer the request body: length limit exceeded"⟩

/-- A body that is no text. -/
def notText (f : Utf8.Fault) : Response :=
  ⟨400, .text ("Request body didn't contain valid UTF-8: " ++ f.message)⟩

/-- A body that is JSON of another shape than the wanted one, or no JSON. -/
def unreadable (m : Misread) : Response :=
  if m.fault.isAboutShape then
    ⟨422, .text ("Failed to deserialize the JSON body into the target type: " ++ m.message)⟩
  else ⟨400, .text ("Failed to parse the request body as JSON: " ++ m.message)⟩

/-- Whether a request says that its body is JSON. -/
def Request.saysJson (q : Request) : Bool :=
  match q.contentType.bind MediaType.ofText? with
  | some mediaType => mediaType.isJson
  | none => false

/-- Answer a request by the value that its JSON body starts with. -/
def withJson {α : Type} (q : Request) (decode : Document → Except Misread α) (answer : α → Response) : Response :=
  if !q.saysJson then ⟨415, .text "Expected request with \x60Content-Type: application/json\x60"⟩
  else if greatestBody < q.body.size then tooLarge
  else
    match Json.decodeStart decode q.body with
    | .error m => unreadable m
    | .ok value => answer value

/-- A field of a request that holds a source. -/
def sourceField {σ : Type} (name : String) (get : σ → Option String) (put : σ → String → σ) : RecordField σ where
  name := name
  isSet s := (get s).isSome
  set _ s d := d.text.map (put s)
  isOptional := false

/-- The body of a request to parse a source. -/
def parseRecord : Record (Option String) String where
  name := "struct ParseRequest"
  fields := [sourceField "source" id fun _ source => some source]
  isClosed := false
  start := none
  build
    | some source => .ok source
    | none => .error (.missingField "source")

/-- The body of a request to compare two sources. -/
def checkRecord : Record (Option String × Option String) (String × String) where
  name := "struct CheckRequest"
  fields :=
    [sourceField "left" Prod.fst fun s left => (some left, s.2),
      sourceField "right" Prod.snd fun s right => (s.1, some right)]
  isClosed := false
  start := (none, none)
  build
    | (some left, some right) => .ok (left, right)
    | (none, _) => .error (.missingField "left")
    | (_, none) => .error (.missingField "right")

/-! ### Answers -/

/-- What the service says about itself. -/
def health : Json :=
  .object [("service", .string programName), ("status", .string "ok"), ("version", .string programVersion)]

/-- The units of a source; problems are marked in ASCII. -/
def parseAnswer (r : Resolver) (source : String) : Except Failure Json := do
  let units ← r.unitsWith MarkStyle.plain.render source
  return .object [("display", .string units.display), ("source", .string source), ("units", units.toJson)]

/-- Whether two sources denote the same units, and these units. -/
def checkAnswer (r : Resolver) (left right : String) : Except Failure Json := do
  let left ← r.unitsOf left
  let right ← r.unitsOf right
  return .object [("equivalent", .bool (left == right)), ("left", .string left.display),
    ("right", .string right.display)]

/-- Load a unit system file; the answer is the number of units that are loaded then. -/
def loadUnits (r : Resolver) (q : Request) : Response × Resolver :=
  if greatestBody < q.body.size then (tooLarge, r)
  else
    match Utf8.decode q.body with
    | .error f => (notText f, r)
    | .ok text =>
      match (Resolver.loadText text).perform r with
      | (.ok (), after) => (.json (.object [("units", Json.nat after.system.size)]), after)
      | (.error f, after) => (.ofFailure f, after)

/-- The characters of a scheme in front of an address. -/
def isSchemeChar (c : Char) : Bool :=
  c.isAlphanum || c == '+' || c == '-' || c == '.' || c == '~'

/-- The path of a target: what follows the host of an address. The scheme of an address may be empty, and an address
without a path has the path `/`. -/
def pathOf (target : List Char) : List Char :=
  match target.dropWhile isSchemeChar with
  | ':' :: '/' :: '/' :: rest =>
    match rest.dropWhile (· != '/') with
    | [] => ['/']
    | path => path
  | _ => target

/-- The path of a request without its query. -/
def Request.route (q : Request) : String :=
  String.ofList (pathOf (q.target.toList.takeWhile fun c => c != '?' && c != '#'))

/-- Answer a request. -/
def respond (r : Resolver) (q : Request) : Response × Resolver :=
  if q.method = "OPTIONS" then (.empty 200, r)
  else
    match q.route, q.method with
    | "/health", "GET" => (.json health, r)
    | "/health", "HEAD" => (.empty 200, r)
    | "/parse", "POST" =>
      (withJson q (parseRecord.decode Json.greatestNesting) fun source => .ofResult (parseAnswer r source), r)
    | "/check", "POST" =>
      (withJson q (checkRecord.decode Json.greatestNesting) fun s => .ofResult (checkAnswer r s.1 s.2), r)
    | "/units", "POST" => loadUnits r q
    | route, _ => (.empty (if ["/health", "/parse", "/check", "/units"].contains route then 405 else 404), r)

/-- Answer requests one after the other; the resolver that is left comes with the answers. -/
def serve (r : Resolver) : List Request → List Response × Resolver
  | [] => ([], r)
  | q :: rest =>
    let answer := respond r q
    let more := serve answer.2 rest
    (answer.1 :: more.1, more.2)

end Http
end Dimensional
