import Dimensional.CommandLine.FileTree
import Dimensional.CommandLine.Options
import Dimensional.Resolver

/-!
# Loading from the command line

Units are loaded over the metric base units from the files below a directory and then from single files; the wordings of
a message catalog come last. Each step loads over the ones before it, and the first step that fails ends the loading.
-/

namespace Dimensional
namespace CommandLine

/-- The files that a command can read, by their paths. A link to a directory leads to the directory; other links stay
what they are. -/
structure Files where
  find : String → Except FileFault FileTree

namespace Files

/-- The files of a tree. -/
def ofTree (tree : FileTree) : Files := ⟨tree.find⟩

/-- The text of a file. -/
def read (files : Files) (path : String) : Except FileFault String :=
  (files.find path).bind FileTree.read

end Files

/-- Why a command could not start or go on. -/
inductive CommandFault where
  | unreadable (path : String) (fault : FileFault)
  | unlisted (path : String) (fault : FileFault)
  | invalidCatalog (path : String) (fault : Json.Fault)
  | failed (failure : Failure)
  | invalidAddress
  | noServer
  | noTerminal
deriving DecidableEq, Inhabited

/-! ### Steps -/

/-- A step of loading: a unit system file or a message catalog with its text, or a directory that cannot be listed. -/
inductive LoadStep where
  | units (path : String) (text : Except FileFault String)
  | messages (path : String) (text : Except FileFault String)
  | unlisted (path : String) (fault : FileFault)

namespace LoadStep

/-- The last part of the name of a unit system file. -/
def suffix : String := ".units.json"

/-- The last name of a path. -/
def fileName (path : String) : String :=
  ((FileTree.components path).getLast?).getD path

/-- The name of a leaf: the last one on the way to it, or the last one of the root. -/
def leafName (root : String) (names : List FileName) : FileName :=
  names.getLast?.getD (.ofText (fileName root))

/-- Whether a name is a text and ends like that of a unit system file. -/
def isUnitSystem (name : FileName) : Bool :=
  name.text?.any (·.endsWith suffix)

/-- The path of a leaf as it is shown. -/
def leafPath (root : String) (names : List FileName) : String :=
  names.foldl (fun path name => FileTree.join path name.display) root

/-- The step for a leaf below a directory. Files with other names and what is no file is left out. -/
def ofLeaf? (root : String) (leaf : FileTree.Leaf) : Option LoadStep :=
  let path := leafPath root leaf.1
  match leaf.2 with
  | .file text => if isUnitSystem (leafName root leaf.1) then some (.units path (.ok text)) else none
  | .sealedFile fault => if isUnitSystem (leafName root leaf.1) then some (.units path (.error fault)) else none
  | .sealedDirectory fault => some (.unlisted path fault)
  | .link _ | .directory _ => none

/-- The steps for a directory. A file in its place is loaded like one in it. -/
def ofDirectory (files : Files) (path : String) : List LoadStep :=
  match files.find path with
  | .error fault => [.unlisted path fault]
  | .ok tree => tree.walk.filterMap (ofLeaf? path)

/-- All steps in order. -/
def ofOptions (files : Files) (options : UnitOptions) : List LoadStep :=
  (options.directory.toList.flatMap (ofDirectory files)) ++
    (options.files.map fun path => .units path (files.read path)) ++
    (options.messages.toList.map fun path => .messages path (files.read path))

/-- Take a step. -/
def perform (r : Resolver) : LoadStep → Except CommandFault Resolver
  | .units path (.error fault) => .error (.unreadable path fault)
  | .units _ (.ok text) => (r.addText text).mapError .failed
  | .messages path (.error fault) => .error (.unreadable path fault)
  | .messages path (.ok text) =>
    match MessageCatalog.ofText text with
    | .error fault => .error (.invalidCatalog path fault)
    | .ok catalog => .ok (r.addMessages catalog)
  | .unlisted path fault => .error (.unlisted path fault)

end LoadStep

/-- The resolver before the first step. -/
def initialResolver (options : UnitOptions) : Resolver :=
  if options.noDefaultUnits then { Resolver.standard with system := NameMap.empty } else .standard

/-- Take all steps. -/
def load (files : Files) (options : UnitOptions) : Except CommandFault Resolver :=
  (LoadStep.ofOptions files options).foldlM LoadStep.perform (initialResolver options)

end CommandLine
end Dimensional
