import Dimensional.Expression.Token

/-!
# Lines at a prompt

What a line typed at a prompt asks for.
-/

namespace Dimensional
namespace CommandLine

/-- What a line at a prompt asks for. -/
inductive PromptLine where
  | quit
  | skip
  | parse (source : String)
  | check (left right : String)
deriving DecidableEq, Inhabited

namespace PromptLine

/-- The parts of a line in front of its first double equals sign and behind it. -/
def splitEquality : List Char → Option (List Char × List Char)
  | '=' :: '=' :: rest => some ([], rest)
  | c :: rest => (splitEquality rest).map fun split => (c :: split.1, split.2)
  | [] => none

/-- Read a line; blanks around it and around a double equals sign do not count. -/
def of (line : String) : PromptLine :=
  let cs := trimBlank line.toList
  let text := String.ofList cs
  if cs.isEmpty then .skip
  else if [":q", ":quit", "exit", "quit"].contains text then .quit
  else
    match splitEquality cs with
    | some (left, right) => .check (String.ofList (trimBlank left)) (String.ofList (trimBlank right))
    | none => .parse text

end PromptLine
end CommandLine
end Dimensional
