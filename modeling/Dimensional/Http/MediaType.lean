/-!
# Media types

Media types as they stand in content type headers: a type, a subtype, perhaps a structured syntax suffix, and
parameters, which are checked and forgotten.
-/

namespace Dimensional
namespace Http

/-- Whether a character may stand in a name of a media type. -/
def isTokenChar (c : Char) : Bool :=
  c.isAlphanum || "!#$%&'*+-.^_\x60|~".toList.contains c

/-- Whether a character may stand inside quotes. -/
def isQuotedChar (c : Char) : Bool :=
  0x20 ≤ c.toNat && c.toNat < 0x7F

/-! ### Parameters -/

/-- How far a list of parameters is read. -/
inductive ParameterState where
  /-- Before a name. -/
  | start
  | name
  /-- Behind the equals sign. -/
  | valueStart
  | value
  /-- Behind the opening quote, where a quote does not end the value. -/
  | quotedStart
  | quoted
  /-- Behind the closing quote. -/
  | closed
deriving DecidableEq, Inhabited

namespace ParameterState

/-- Read a character. -/
def next? (s : ParameterState) (c : Char) : Option ParameterState :=
  match s with
  | .start => if c = ' ' then some .start else if isTokenChar c then some .name else none
  | .name => if c = '=' then some .valueStart else if isTokenChar c then some .name else none
  | .valueStart => if c = '"' then some .quotedStart else if isTokenChar c then some .value else none
  | .value => if c = ';' then some .start else if isTokenChar c then some .value else none
  | .quotedStart => if isQuotedChar c then some .quoted else none
  | .quoted => if c = '"' then some .closed else if isQuotedChar c then some .quoted else none
  | .closed => if c = ';' then some .start else if c = ' ' then some .closed else none

/-- Whether the parameters may end here. -/
def isFinal : ParameterState → Bool
  | .start | .valueStart | .value | .closed => true
  | .name | .quotedStart | .quoted => false

end ParameterState

/-- Whether a text is a list of parameters. -/
def areParameters (cs : List Char) : Bool :=
  match cs.foldlM ParameterState.next? .start with
  | some s => s.isFinal
  | none => false

/-! ### Media types -/

/-- A media type without its parameters, in lower case. -/
structure MediaType where
  type : String
  subtype : String
  suffix : Option String
deriving DecidableEq, Inhabited

namespace MediaType

/-- Split a subtype before its last plus sign, unless it starts with that. -/
def splitSuffix (cs : List Char) : String × Option String :=
  let after := (cs.reverse.takeWhile (· != '+')).reverse
  let before := cs.take (cs.length - after.length - 1)
  if before.isEmpty then (String.ofList cs, none) else (String.ofList before, some (String.ofList after))

/-- The media type of a header. -/
def ofText? (text : String) : Option MediaType :=
  let cs := text.toList
  let type := cs.takeWhile isTokenChar
  match cs.dropWhile isTokenChar with
  | '/' :: rest =>
    let subtype := rest.takeWhile isTokenChar
    let split := splitSuffix (subtype.map Char.toLower)
    let mediaType : MediaType := ⟨String.ofList (type.map Char.toLower), split.1, split.2⟩
    match rest.dropWhile isTokenChar with
    | [] => if type.isEmpty then none else some mediaType
    | ';' :: parameters =>
      if type.isEmpty || subtype.isEmpty || !areParameters parameters then none else some mediaType
    | _ => none
  | _ => none

/-- Whether a media type is JSON, or says that it has the syntax of JSON. -/
def isJson (m : MediaType) : Bool :=
  m.type == "application" && (m.subtype == "json" || m.suffix == some "json")

end MediaType
end Http
end Dimensional
