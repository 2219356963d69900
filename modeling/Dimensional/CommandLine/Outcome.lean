import Dimensional.Http.Service
import Dimensional.CommandLine.Loading
import Dimensional.CommandLine.Prompt
import Dimensional.CommandLine.SocketAddress
import Dimensional.Json.Diagnostic
import Dimensional.Report.Caret
import Dimensional.Report.Listing

/-!
# Outcomes of commands

What a command prints and how it exits. A command exits with 0 if it did what was asked and the answer is good, with 1
if not, and with 2 if the command line makes no sense.
-/

namespace Dimensional

/-- A failure for a terminal: problems of a source are marked below it. -/
def Failure.report : Failure → String
  | .invalidUnits details =>
    "Invalid units: " ++ details.source ++ "\n" ++ CaretReport.render details.source details.diagnostics
  | .limitExceeded excess =>
    "Resource limit exceeded: " ++ excess.name ++ "\n  Limit: " ++ excess.limitText ++ "\n  Actual: " ++
      excess.actualText ++ "\n  " ++ excess.suggestion
  | failure => failure.message

namespace CommandLine

/-- The exit code of a program and what it printed. -/
structure Outcome where
  exit : Nat
  stdout : String
  stderr : String
deriving DecidableEq, Inhabited

/-- Why a command stopped, in words. -/
def CommandFault.report : CommandFault → String
  | .unreadable path fault => "Error: Failed to read " ++ path ++ ": " ++ fault.message
  | .unlisted path fault =>
    "Error: IO error for operation on " ++ path ++ ": " ++ fault.message ++ ": " ++ fault.message
  | .invalidCatalog path fault => "Error: Invalid message catalog " ++ path ++ ": " ++ fault.message
  | .failed failure => failure.report
  | .invalidAddress => "Error: invalid socket address syntax"
  | .noServer => "Error: Server feature not enabled"
  | .noTerminal => "Error: Failed to read a unit expression: The input device is not a TTY"

namespace Outcome

/-- The exit code for a good or a bad answer. -/
def exitFor (good : Bool) : Nat :=
  if good then 0 else 1

/-- An answer on the standard output. -/
def answer (good : Bool) (text : String) : Outcome := ⟨exitFor good, text, ""⟩

/-- A message on the standard error output. -/
def failed (message : String) : Outcome := ⟨1, "", message ++ "\n"⟩

end Outcome

/-! ### Commands -/

/-- A resolution with its diagnostics. -/
def resolutionJson (r : Resolution) : Json :=
  .object [("diagnostics", .list (r.diagnostics.map Diagnostic.toJson)), ("display", .string r.units.display),
    ("ok", .bool r.isOk), ("source", .string r.source), ("units", r.units.toJson)]

def parse (r : Resolver) (source : String) : Form → Outcome
  | .report =>
    match r.unitsOf source with
    | .ok units => .answer true units.listing
    | .error failure => .failed failure.report
  | .plain =>
    match r.unitsWith MarkStyle.plain.render source with
    | .ok units => .answer true units.listing
    | .error failure => .failed failure.message
  | .json =>
    match r.resolve source with
    | .ok resolution => .answer resolution.isOk ((resolutionJson resolution).pretty ++ "\n")
    | .error failure => .failed failure.report

def check (r : Resolver) (left right : String) : Outcome :=
  match r.unitsOf left with
  | .error failure => .failed failure.report
  | .ok leftUnits =>
    match r.unitsOf right with
    | .error failure => .failed failure.report
    | .ok rightUnits =>
      if leftUnits = rightUnits then
        .answer true ("✓ '" ++ left ++ "' and '" ++ right ++ "' have the same dimensions: " ++ leftUnits.display ++ "\n")
      else
        .answer false ("✗ '" ++ left ++ "' and '" ++ right ++ "' differ\n  " ++ left ++ ": " ++ leftUnits.display ++
          "\n  " ++ right ++ ": " ++ rightUnits.display ++ "\n")

/-- What is printed before the first prompt. -/
def promptIntroduction : String :=
  "Type a unit expression to resolve it, or 'A == B' to compare two.\nEnter :q or press Esc to leave.\n\n"

/-- The answer to a line at a prompt; none ends the prompt. -/
def answerLine (r : Resolver) (line : String) : Option Outcome :=
  match PromptLine.of line with
  | .quit => none
  | .skip => some (.answer true "")
  | .parse source => some (parse r source .report)
  | .check left right =>
    match r.equivalent left right with
    | .ok true => some (.answer true "✓ equal\n")
    | .ok false => some (.answer true "✗ not equal\n")
    | .error failure => some (.failed failure.report)

/-- Carry out a command without a terminal and without a network. -/
def perform (r : Resolver) : Command → Outcome
  | .parse source form => parse r source form
  | .check left right => check r left right
  | .list => .answer true r.system.listing
  | .validate => .answer r.system.validate.isValid r.system.validate.listing
  | .interactive => { Outcome.failed CommandFault.noTerminal.report with stdout := promptIntroduction }
  | .server host _ => .failed (if isAddress host then CommandFault.noServer else .invalidAddress).report

/-- How the program is called. -/
def usage : String := "Usage: " ++ programName ++ " [OPTIONS] <COMMAND>\n"

/-- Load the units and carry out the command. -/
def run (files : Files) (words : List String) : Outcome :=
  match Invocation.ofWords words with
  | .misuse => ⟨2, "", usage⟩
  | .help => .answer true usage
  | .version => .answer true (programName ++ " " ++ programVersion ++ "\n")
  | .run options command =>
    match load files options with
    | .error fault => .failed fault.report
    | .ok r => perform r command

end CommandLine
end Dimensional
