import Dimensional.Text.Utf8

/-!
# File trees

Directories and files as values. `FileTree.find` follows a path; `FileTree.walk` lists what is below a directory depth
first, each directory in the order of its names. Names are bytes: not all of them are texts.
-/

namespace Dimensional
namespace CommandLine

/-- Why a file or a directory cannot be read. -/
inductive FileFault where
  | notFound
  | notDirectory
  | isDirectory
  | nameTooLong
  | notText
  | other (text : String)
deriving DecidableEq, Inhabited

def FileFault.message : FileFault → String
  | .notFound => "No such file or directory (os error 2)"
  | .notDirectory => "Not a directory (os error 20)"
  | .isDirectory => "Is a directory (os error 21)"
  | .nameTooLong => "File name too long (os error 36)"
  | .notText => "stream did not contain valid UTF-8"
  | .other text => text

/-! ### Names -/

/-- The name of an entry of a directory. -/
structure FileName where
  bytes : List UInt8
deriving DecidableEq, Inhabited

namespace FileName

def ofText (text : String) : FileName := ⟨text.toUTF8.data.toList⟩

/-- The text that the name is, if it is one. -/
def text? (name : FileName) : Option String :=
  String.fromUTF8? ⟨name.bytes.toArray⟩

def display (name : FileName) : String :=
  Utf8.display ⟨name.bytes.toArray⟩

@[simp]
theorem text?_ofText (text : String) : (ofText text).text? = some text := by
  rw [text?, ofText, Array.toArray_toList]
  exact Utf8.fromUTF8?_toUTF8 text

/-! Names are ordered byte by byte. -/

instance : LE FileName := ⟨fun a b => a.bytes ≤ b.bytes⟩

instance (a b : FileName) : Decidable (a ≤ b) := inferInstanceAs (Decidable (a.bytes ≤ b.bytes))

theorem le_trans {a b c : FileName} (hab : a ≤ b) (hbc : b ≤ c) : a ≤ c :=
  List.le_trans hab hbc

theorem le_total (a b : FileName) : a ≤ b ∨ b ≤ a :=
  List.le_total a.bytes b.bytes

theorem le_antisymm {a b : FileName} (hab : a ≤ b) (hba : b ≤ a) : a = b := by
  have hbytes : a.bytes = b.bytes := List.le_antisymm hab hba
  cases a
  cases b
  cases hbytes
  rfl

end FileName

/-! ### Trees -/

/-- What an entry of a directory is, with all that is below it. -/
inductive FileTree where
  | file (text : String)
  /-- A file whose text cannot be read. -/
  | sealedFile (fault : FileFault)
  /-- Neither a file nor a directory, such as a link or a pipe. What is at its other end is no part of the directory. -/
  | link (target : Except FileFault FileTree)
  | directory (entries : List (FileName × FileTree))
  /-- A directory whose entries cannot be listed. -/
  | sealedDirectory (fault : FileFault)
deriving Inhabited

namespace FileTree

/-- The directory without entries. -/
def empty : FileTree := .directory []

/-- What is at the end of all links. -/
def behind : FileTree → Except FileFault FileTree
  | .link (.ok target) => target.behind
  | .link (.error fault) => .error fault
  | tree => .ok tree

/-- What is found at a place: links to directories are followed, others only if they lead nowhere. -/
def found (tree : FileTree) : Except FileFault FileTree :=
  match tree.behind with
  | .error fault => .error fault
  | .ok (.directory entries) => .ok (.directory entries)
  | .ok (.sealedDirectory fault) => .ok (.sealedDirectory fault)
  | .ok _ => .ok tree

/-- The text of a file, or of what a link leads to. -/
def read : FileTree → Except FileFault String
  | .file text => .ok text
  | .sealedFile fault | .sealedDirectory fault | .link (.error fault) => .error fault
  | .link (.ok target) => target.read
  | .directory _ => .error .isDirectory

/-! ### Paths -/

/-- The parts of a path between slashes. -/
def components (path : String) : List String :=
  (path.toList.splitOn '/').map String.ofList

/-- A path with a name below it. -/
def join (path name : String) : String :=
  if path.endsWith "/" then path ++ name else path ++ "/" ++ name

/-- Put a file into a tree. -/
def addFile (text : String) : List FileName → FileTree → FileTree
  | [], _ => .file text
  | name :: rest, tree =>
    let entries := match tree with
      | .directory entries => entries
      | _ => []
    let below := addFile text rest ((entries.lookup name).getD empty)
    .directory ((entries.filter fun e => e.1 != name) ++ [(name, below)])

/-- The tree of some files with their paths. -/
def ofFiles (files : List (String × String)) : FileTree :=
  files.foldl (fun tree f => tree.addFile f.2 ((components f.1).map .ofText)) empty

/-- The greatest size of a name in bytes. -/
def greatestName : Nat := 255

/-- The greatest size of a path in bytes. -/
def greatestPath : Nat := 4095

def isLink : FileTree → Bool
  | .link _ => true
  | _ => false

/-- Follow the parts of a path. The directories that lead to the current place come with it, the nearest first; above
them, and above the target of a link, nothing is known but empty directories. -/
def follow (above : List FileTree) (current : FileTree) : List String → Except FileFault FileTree
  | [] => current.found
  | name :: rest =>
    match current.found with
    | .error fault | .ok (.sealedDirectory fault) => .error fault
    | .ok (.directory entries) =>
      let above := if current.isLink then [] else above
      if name = "" ∨ name = "." then follow above (.directory entries) rest
      else if name = ".." then
        match above with
        | [] => follow [] empty rest
        | parent :: more => follow more parent rest
      else
        match entries.lookup (.ofText name) with
        | none => .error (if greatestName < name.utf8ByteSize then .nameTooLong else .notFound)
        | some tree => follow (.directory entries :: above) tree rest
    | .ok _ => .error .notDirectory

/-- What a path leads to. Of the files outside the tree nothing is known. -/
def find (tree : FileTree) (path : String) : Except FileFault FileTree :=
  if greatestPath < path.utf8ByteSize then .error .nameTooLong
  else (if path.startsWith "/" then empty else tree).follow [] (components path)

/-! ### What is below a directory -/

/-- Something that is no directory, or a directory that cannot be listed, with the names on the way to it. -/
abbrev Leaf := List FileName × FileTree

mutual

/-- The leaves of a tree. The walk goes down into an entry of a directory before it goes on to the next one, in the order
of their names, and does not follow links. -/
def walkFrom (above : List FileName) : FileTree → List Leaf
  | .directory entries =>
    ((walkEntries above entries).mergeSort fun a b => decide (a.1 ≤ b.1)).flatMap Prod.snd
  | .file text => [(above, .file text)]
  | .sealedFile fault => [(above, .sealedFile fault)]
  | .link target => [(above, .link target)]
  | .sealedDirectory fault => [(above, .sealedDirectory fault)]

/-- What the walk meets in each entry of a directory, with the name of the entry. -/
def walkEntries (above : List FileName) : List (FileName × FileTree) → List (FileName × List Leaf)
  | [] => []
  | (name, tree) :: rest => (name, walkFrom (above ++ [name]) tree) :: walkEntries above rest

end

/-- The walk through a tree from its top. -/
def walk (tree : FileTree) : List Leaf :=
  tree.walkFrom []

end FileTree
end CommandLine
end Dimensional
