/-!
# Command line options

The words of a command line: options of the whole program, then the name of a command, then its operands and options
mixed with those of the whole program. A word behind an option that takes a value is its value; after `--` all words are
operands.
-/

namespace Dimensional
namespace CommandLine

/-- Where units and wordings are loaded from. -/
structure UnitOptions where
  /-- Unit system files, in the order in which they are loaded. -/
  files : List String
  /-- A directory whose unit system files are loaded before. -/
  directory : Option String
  /-- A message catalog. -/
  messages : Option String
  /-- Whether to start without any units. -/
  noDefaultUnits : Bool
deriving DecidableEq, Inhabited

/-- How units and problems are shown. -/
inductive Form where
  /-- Problems below the source. -/
  | report
  | json
  /-- Problems inside the source, in ASCII. -/
  | plain
deriving DecidableEq, Inhabited

/-- What to do with the loaded units. -/
inductive Command where
  | parse (source : String) (form : Form)
  | check (left right : String)
  | list
  | validate
  | interactive
  | server (host : String) (socket : Nat)
deriving DecidableEq, Inhabited

/-- What a command line asks for. -/
inductive Invocation where
  | run (options : UnitOptions) (command : Command)
  | help
  | version
  | misuse
deriving DecidableEq, Inhabited

/-! ### Options -/

/-- The options that a command line may hold. -/
inductive Switch where
  | units
  | directory
  | messages
  | noDefaultUnits
  | json
  | plain
  | host
  | socket
  | help
  | version
deriving DecidableEq, Inhabited

/-- The names of the commands. -/
inductive CommandName where
  | parse
  | check
  | list
  | validate
  | interactive
  | server
deriving DecidableEq, Inhabited

/-- The command of a name. -/
def CommandName.ofWord? : String → Option CommandName
  | "parse" => some .parse
  | "check" => some .check
  | "list" => some .list
  | "validate" => some .validate
  | "interactive" => some .interactive
  | "server" => some .server
  | _ => none

/-- The number of operands that a command takes. -/
def CommandName.arity : CommandName → Nat
  | .parse => 1
  | .check => 2
  | _ => 0

namespace Switch

/-- Whether an option is followed by a value. -/
def takesValue : Switch → Bool
  | .units | .directory | .messages | .host | .socket => true
  | _ => false

/-- Whether an option may be given more than once. -/
def isRepeatable (s : Switch) : Bool :=
  s == .units

/-- The option of a long name. The options of a command are known behind the name of the command only; the version is
told in front of it only. -/
def ofLong? (command : Option CommandName) : String → Option Switch
  | "units" => some .units
  | "dir" => some .directory
  | "messages" => some .messages
  | "no-default-units" => some .noDefaultUnits
  | "help" => some .help
  | "version" => if command = none then some .version else none
  | "json" => if command = some .parse then some .json else none
  | "plain" => if command = some .parse then some .plain else none
  | "host" => if command = some .server then some .host else none
  | "port" => if command = some .server then some .socket else none
  | _ => none

/-- The option of a letter. -/
def ofShort? (command : Option CommandName) : Char → Option Switch
  | 'u' => some .units
  | 'd' => some .directory
  | 'm' => some .messages
  | 'h' => some .help
  | 'V' => if command = none then some .version else none
  | 'p' => if command = some .server then some .socket else none
  | _ => none

end Switch

/-- The number of a socket: decimal digits, perhaps with a sign, for a number of 16 bits. -/
def socketNumber? (text : String) : Option Nat :=
  let (negative, digits) := match text.toList with
    | '+' :: rest => (false, rest)
    | '-' :: rest => (true, rest)
    | cs => (false, cs)
  let n := digits.foldl (fun n c => 10 * n + (c.toNat - '0'.toNat)) 0
  if digits.isEmpty || !digits.all Char.isDigit || 0xFFFF < n || (negative && 0 < n) then none else some n

/-- Whether an option can have a value. A path is not empty. -/
def Switch.accepts (s : Switch) (value : String) : Bool :=
  match s with
  | .units | .directory | .messages => value != ""
  | .socket => (socketNumber? value).isSome
  | _ => true

/-! ### Reading words -/

/-- The options and operands that were read, in order. -/
structure Given where
  switches : List (Switch × String)
  operands : List String
deriving DecidableEq, Inhabited

namespace Given

def empty : Given := ⟨[], []⟩

/-- Whether an option was given. -/
def has (g : Given) (s : Switch) : Bool :=
  g.switches.any fun p => p.1 == s

/-- The values of an option. -/
def values (g : Given) (s : Switch) : List String :=
  (g.switches.filter fun p => p.1 == s).map Prod.snd

/-- The value of an option that is given at most once. -/
def value? (g : Given) (s : Switch) : Option String :=
  (g.values s).head?

/-- Add an option with its value. Help and version end the reading. -/
def addSwitch (g : Given) (s : Switch) (value : String) : Except Invocation Given :=
  match s with
  | .help => .error .help
  | .version => .error .version
  | s =>
    if !s.accepts value || (g.has s && !s.isRepeatable) then .error .misuse
    else .ok { g with switches := g.switches ++ [(s, value)] }

/-- Add an operand of a command; without a command there are none. -/
def addOperand (command : Option CommandName) (g : Given) (word : String) : Except Invocation Given :=
  if g.operands.length < (command.map CommandName.arity).getD 0 then .ok { g with operands := g.operands ++ [word] }
  else .error .misuse

end Given

/-- A word as it stands on a command line. -/
inductive Word where
  /-- The mark after which all words are operands. -/
  | divider
  /-- An option in its long form, perhaps with a value behind an equals sign. -/
  | long (name : String) (value : Option String)
  /-- A letter after a single dash, and what follows it. -/
  | short (letter : Char) (rest : List Char)
  | plain (text : String)
deriving DecidableEq, Inhabited

/-- The part of a word in front of its first equals sign, and the part behind it. -/
def splitValue (cs : List Char) : String × Option String :=
  let name := cs.takeWhile (· != '=')
  (String.ofList name, if name.length < cs.length then some (String.ofList (cs.drop (name.length + 1))) else none)

/-- The form of a word. A single dash is no option. -/
def Word.of (text : String) : Word :=
  match text.toList with
  | ['-', '-'] => .divider
  | '-' :: '-' :: rest =>
    let split := splitValue rest
    .long split.1 split.2
  | '-' :: letter :: rest => .short letter rest
  | _ => .plain text

/-- Read an option. If its value has to follow, the option is returned. -/
def readSwitch (command : Option CommandName) (g : Given) : Word → Except Invocation (Given × Option Switch)
  | .long name value =>
    match Switch.ofLong? command name, value with
    | none, _ => .error .misuse
    | some s, none => if s.takesValue then .ok (g, some s) else (g.addSwitch s "").map (·, none)
    | some s, some value => if s.takesValue then (g.addSwitch s value).map (·, none) else .error .misuse
  | .short letter rest =>
    match Switch.ofShort? command letter, rest with
    | none, _ => .error .misuse
    | some s, [] => if s.takesValue then .ok (g, some s) else (g.addSwitch s "").map (·, none)
    | some s, '=' :: value => (g.addSwitch s (String.ofList value)).map (·, none)
    | some s, value => (g.addSwitch s (String.ofList value)).map (·, none)
  | _ => .error .misuse

/-- The words that follow the mark are operands. -/
def readOperands (command : Option CommandName) (g : Given) (words : List String) : Except Invocation Given :=
  words.foldlM (Given.addOperand command) g

/-- Read the words behind the name of a command. `pending` is an option that waits for its value. -/
def readCommand (command : CommandName) (g : Given) (pending : Option Switch) :
    List String → Except Invocation Given
  | [] => if pending.isSome then .error .misuse else .ok g
  | word :: rest =>
    match pending, Word.of word with
    | some s, .plain text => do
      let g ← g.addSwitch s text
      readCommand command g none rest
    | some _, _ => .error .misuse
    | none, .divider => readOperands (some command) g rest
    | none, .plain text => do
      let g ← g.addOperand (some command) text
      readCommand command g none rest
    | none, w => do
      let read ← readSwitch (some command) g w
      readCommand command read.1 read.2 rest

/-- Whether the words behind `help` name a command, if there are any. -/
def isHelpTopic : List String → Bool
  | [] => true
  | [name] => name == "help" || (CommandName.ofWord? name).isSome
  | _ => false

/-- Read the words in front of the name of a command, and give the words behind it with the command to `next`. -/
def readProgram (next : Given → CommandName → List String → Except Invocation Invocation) (g : Given)
    (pending : Option Switch) : List String → Except Invocation Invocation
  | [] => .error .misuse
  | word :: rest =>
    match pending, Word.of word with
    | some s, .plain text => do
      let g ← g.addSwitch s text
      readProgram next g none rest
    | some _, _ => .error .misuse
    | none, .divider => .error .misuse
    | none, .plain text =>
      match CommandName.ofWord? text with
      | some command => next g command rest
      | none => if text = "help" ∧ isHelpTopic rest then .error .help else .error .misuse
    | none, w => do
      let read ← readSwitch none g w
      readProgram next read.1 read.2 rest

/-! ### Invocations -/

/-- The options of the whole program. Those behind the name of the command take the place of those in front of it. -/
def unitOptions (program command : Given) : UnitOptions :=
  { files := if command.has .units then command.values .units else program.values .units
    directory := command.value? .directory <|> program.value? .directory
    messages := command.value? .messages <|> program.value? .messages
    noDefaultUnits := program.has .noDefaultUnits || command.has .noDefaultUnits }

/-- The host of a server unless another one is given. -/
def defaultHost : String := "127.0.0.1"

/-- The socket of a server unless another one is given. -/
def defaultSocket : Nat := 3000

/-- The command that a name, operands and options make. -/
def command? (name : CommandName) (g : Given) : Option Command :=
  match name, g.operands with
  | .parse, [source] =>
    match g.has .json, g.has .plain with
    | true, true => none
    | true, false => some (.parse source .json)
    | false, true => some (.parse source .plain)
    | false, false => some (.parse source .report)
  | .check, [left, right] => some (.check left right)
  | .list, [] => some .list
  | .validate, [] => some .validate
  | .interactive, [] => some .interactive
  | .server, [] =>
    some (.server ((g.value? .host).getD defaultHost) (((g.value? .socket).bind socketNumber?).getD defaultSocket))
  | _, _ => none

/-- The words behind the name of a command, after those in front of it. -/
def finish (program : Given) (name : CommandName) (words : List String) : Except Invocation Invocation := do
  let g ← readCommand name .empty none words
  match command? name g with
  | some command => return .run (unitOptions program g) command
  | none => .error .misuse

/-- What a command line asks for. The first word that ends the reading decides. -/
def Invocation.ofWords (words : List String) : Invocation :=
  match readProgram finish .empty none words with
  | .ok invocation => invocation
  | .error invocation => invocation

end CommandLine
end Dimensional
