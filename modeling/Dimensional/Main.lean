import Dimensional.CommandLine.Outcome

/-!
# Program

Reads the files that a command line names, and prints the outcome. What the outcome is, `CommandLine.run` decides.
-/

namespace Dimensional
namespace CommandLine

/-- Why an operation on a file failed. -/
def FileFault.ofError : IO.Error → FileFault
  | .noFileOrDirectory .. => .notFound
  | .inappropriateType _ 21 _ => .isDirectory
  | .inappropriateType .. => .notDirectory
  | .invalidArgument .. => .nameTooLong
  | .permissionDenied .. => .other "Permission denied (os error 13)"
  | .userError _ => .notText
  | e => .other (toString e)

/-- The file at a path. -/
def readTree (path : String) : IO FileTree := do
  try
    return .file (← IO.FS.readFile path)
  catch e => return .sealedFile (.ofError e)

/-- The directory at a path with all that is below it. The text of a file that is no unit system file is not read. -/
partial def listTree (path : String) : IO FileTree := do
  try
    let entries ← ((← IO.currentDir) / path).readDir
    let below ← entries.toList.filterMapM fun entry => do
      let inside := FileTree.join path entry.fileName
      try
        let tree ← match (← entry.path.symlinkMetadata).type with
          | .dir => listTree inside
          | .file => if entry.fileName.endsWith LoadStep.suffix then readTree inside else pure (.file "")
          | _ => pure (.link (.error .notFound))
        return some (FileName.ofText entry.fileName, tree)
      catch _ => return none  -- a name that is no text comes out of `readDir` as another one
    return .directory below
  catch e => return .sealedDirectory (.ofError e)

/-- What is at a path; the entries of a directory are listed if they are wanted. -/
def treeAt (wantsEntries : Bool) (path : String) : IO (Except FileFault FileTree) := do
  try
    let place := (← IO.currentDir) / path
    if (← place.metadata).type == .dir then return .ok (← if wantsEntries then listTree path else pure .empty)
    let tree ← readTree path
    return .ok (if (← place.symlinkMetadata).type == .file then tree else .link (.ok tree))
  catch e => return .error (.ofError e)

/-- The files that a command line names. -/
def filesFor : Invocation → IO Files
  | .run options _ => do
    let directories ← options.directory.toList.mapM fun path => return (path, ← treeAt true path)
    let files ← (options.files ++ options.messages.toList).mapM fun path => return (path, ← treeAt false path)
    return ⟨fun path => ((directories ++ files).lookup path).getD (.error .notFound)⟩
  | _ => return .ofTree .empty

/-- Answer lines until one of them ends the prompt. -/
partial def promptLoop (r : Resolver) (input : IO.FS.Stream) : IO Unit := do
  IO.print "units> "
  let line ← input.getLine
  if line.isEmpty then return
  match answerLine r line with
  | none => return
  | some outcome =>
    IO.print outcome.stdout
    IO.eprint outcome.stderr
    promptLoop r input

/-- Print an outcome. -/
def Outcome.emit (outcome : Outcome) : IO UInt32 := do
  IO.print outcome.stdout
  IO.eprint outcome.stderr
  return outcome.exit.toUInt32

end CommandLine
end Dimensional

open Dimensional.CommandLine in
/-- Carry out a command line. A prompt needs a terminal. -/
def main (words : List String) : IO UInt32 := do
  let invocation := Invocation.ofWords words
  let files ← filesFor invocation
  let input ← IO.getStdin
  match invocation with
  | .run options .interactive =>
    if ← input.isTty then
      match load files options with
      | .ok r =>
        IO.print promptIntroduction
        promptLoop r input
        return 0
      | .error fault => (Outcome.failed fault.report).emit
    else (run files words).emit
  | _ => (run files words).emit
