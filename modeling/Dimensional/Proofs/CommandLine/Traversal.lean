import Dimensional.CommandLine.Loading
import Mathlib.Data.List.Nodup

/-!
# Traversals

The walk through a tree of files is depth first and takes each directory in the order of its names: `DepthFirst` says
so of a list of leaves without saying how it is found, and `FileTree.depthFirst_walkFrom` says that the walk finds such a
list; where names differ there is no other (`DepthFirst.unique`). Whether a path ends like that of a unit system file is
told by its last name (`LoadStep.isUnitSystem_leafName`).
-/

namespace Dimensional
namespace CommandLine

/-! ### The order of the leaves -/

mutual

/-- Some leaves are those of a tree, depth first, the entries of each directory in the order of their names. Each leaf
comes with the names on the way to it. -/
inductive DepthFirst : List FileName → FileTree → List FileTree.Leaf → Prop
  | file (above : List FileName) (text : String) : DepthFirst above (.file text) [(above, .file text)]
  | sealedFile (above : List FileName) (fault : FileFault) :
    DepthFirst above (.sealedFile fault) [(above, .sealedFile fault)]
  | link (above : List FileName) (target : Except FileFault FileTree) :
    DepthFirst above (.link target) [(above, .link target)]
  | sealedDirectory (above : List FileName) (fault : FileFault) :
    DepthFirst above (.sealedDirectory fault) [(above, .sealedDirectory fault)]
  | directory {above : List FileName} {entries sorted : List (FileName × FileTree)}
    {leaves : List FileTree.Leaf} : sorted.Perm entries → sorted.Pairwise (fun a b => a.1 ≤ b.1) →
    DepthFirstAll above sorted leaves → DepthFirst above (.directory entries) leaves

/-- Some leaves are those of all entries of a directory, one entry after the other. -/
inductive DepthFirstAll : List FileName → List (FileName × FileTree) → List FileTree.Leaf → Prop
  | nil (above : List FileName) : DepthFirstAll above [] []
  | cons {above : List FileName} {name : FileName} {tree : FileTree} {rest : List (FileName × FileTree)}
    {first others : List FileTree.Leaf} : DepthFirst (above ++ [name]) tree first →
    DepthFirstAll above rest others → DepthFirstAll above ((name, tree) :: rest) (first ++ others)

end

/-- In no directory of a tree do two entries have the same name. -/
inductive NamesDiffer : FileTree → Prop
  | file (text : String) : NamesDiffer (.file text)
  | sealedFile (fault : FileFault) : NamesDiffer (.sealedFile fault)
  | link (target : Except FileFault FileTree) : NamesDiffer (.link target)
  | sealedDirectory (fault : FileFault) : NamesDiffer (.sealedDirectory fault)
  | directory {entries : List (FileName × FileTree)} : (entries.map Prod.fst).Nodup →
    (∀ e ∈ entries, NamesDiffer e.2) → NamesDiffer (.directory entries)

namespace FileTree

/-- Induction on a tree: a directory has a property if all its entries have it. Nothing is assumed of what a link leads
to. -/
@[elab_as_elim]
theorem induct {motive : FileTree → Prop} (file : ∀ text, motive (.file text))
    (sealedFile : ∀ fault, motive (.sealedFile fault)) (link : ∀ target, motive (.link target))
    (sealedDirectory : ∀ fault, motive (.sealedDirectory fault))
    (directory : ∀ entries, (∀ e ∈ entries, motive e.2) → motive (.directory entries)) (tree : FileTree) :
    motive tree :=
  @FileTree.rec motive (fun _ => True) (fun entries => ∀ e ∈ entries, motive e.2) (fun e => motive e.2) file sealedFile
    (fun target _ => link target) directory sealedDirectory (fun _ => trivial) (fun _ _ => trivial)
    (fun _ he => absurd he List.not_mem_nil) (fun _ _ hfirst hrest => List.forall_mem_cons.mpr ⟨hfirst, hrest⟩)
    (fun _ _ htree => htree) tree

def sortEntries (entries : List (FileName × FileTree)) : List (FileName × FileTree) :=
  entries.mergeSort fun a b => decide (a.1 ≤ b.1)

theorem perm_sortEntries (entries : List (FileName × FileTree)) : (sortEntries entries).Perm entries :=
  List.mergeSort_perm entries _

theorem pairwise_sortEntries (entries : List (FileName × FileTree)) :
    (sortEntries entries).Pairwise fun a b => a.1 ≤ b.1 := by
  have hsorted : (sortEntries entries).Pairwise fun a b => decide (a.1 ≤ b.1) = true := by
    refine List.pairwise_mergeSort (fun a b c hab hbc => ?_) (fun a b => ?_) entries
    · exact decide_eq_true (FileName.le_trans (of_decide_eq_true hab) (of_decide_eq_true hbc))
    · simpa using FileName.le_total a.1 b.1
  exact hsorted.imp of_decide_eq_true

theorem walkEntries_eq_map (above : List FileName) (entries : List (FileName × FileTree)) :
    walkEntries above entries = entries.map fun e => (e.1, e.2.walkFrom (above ++ [e.1])) := by
  induction entries with
  | nil => rw [walkEntries, List.map_nil]
  | cons e rest ih => rw [walkEntries, ih, List.map_cons]

/-- To sort what the entries of a directory lead to is to sort the entries first. -/
theorem walkFrom_directory (above : List FileName) (entries : List (FileName × FileTree)) :
    walkFrom above (.directory entries) =
      (sortEntries entries).flatMap fun e => e.2.walkFrom (above ++ [e.1]) := by
  rw [walkFrom, walkEntries_eq_map, sortEntries,
    ← List.map_mergeSort (r := fun a b => decide (a.1 ≤ b.1)) (fun _ _ _ _ => rfl), List.flatMap_map]

theorem depthFirstAll_flatMap {above : List FileName} {entries : List (FileName × FileTree)}
    (h : ∀ e ∈ entries, DepthFirst (above ++ [e.1]) e.2 (e.2.walkFrom (above ++ [e.1]))) :
    DepthFirstAll above entries (entries.flatMap fun e => e.2.walkFrom (above ++ [e.1])) := by
  induction entries with
  | nil => exact .nil above
  | cons e rest ih =>
    obtain ⟨hfirst, hrest⟩ := List.forall_mem_cons.mp h
    exact .cons hfirst (ih hrest)

/-- **The walk is depth first and in the order of the names.** -/
theorem depthFirst_walkFrom (tree : FileTree) (above : List FileName) : DepthFirst above tree (tree.walkFrom above) := by
  induction tree using induct generalizing above with
  | file text => exact .file above text
  | sealedFile fault => exact .sealedFile above fault
  | link target => exact .link above target
  | sealedDirectory fault => exact .sealedDirectory above fault
  | directory entries ih =>
    rw [walkFrom_directory]
    refine .directory (perm_sortEntries entries) (pairwise_sortEntries entries) (depthFirstAll_flatMap fun e he => ?_)
    exact ih e ((perm_sortEntries entries).mem_iff.mp he) _

/-- A directory stands where its own name belongs, whatever the names in it are; a name need not be a text. -/
example : (FileTree.directory [(⟨[0xFF]⟩, .file ""), (⟨[0x61]⟩, .directory [(⟨[0x7A]⟩, .file "")])]).walk.map Prod.fst =
    [[⟨[0x61]⟩, ⟨[0x7A]⟩], [⟨[0xFF]⟩]] := by
  cbv

end FileTree

/-! ### One order only -/

/-- Entries with different names can be put into the order of their names in one way. -/
theorem sorted_unique {entries first second : List (FileName × FileTree)} (hnodup : (entries.map Prod.fst).Nodup)
    (hfirst : first.Perm entries) (hsecond : second.Perm entries) (hle : first.Pairwise fun a b => a.1 ≤ b.1)
    (hle' : second.Pairwise fun a b => a.1 ≤ b.1) : first = second := by
  refine List.Perm.eq_of_pairwise (fun a b ha hb hab hba => ?_) hle hle' (hfirst.trans hsecond.symm)
  exact List.inj_on_of_nodup_map hnodup (hfirst.mem_iff.mp ha) (hsecond.mem_iff.mp hb) (FileName.le_antisymm hab hba)

theorem DepthFirstAll.unique {above : List FileName} {entries : List (FileName × FileTree)}
    {first second : List FileTree.Leaf} (h : ∀ e ∈ entries, ∀ leaves leaves',
      DepthFirst (above ++ [e.1]) e.2 leaves → DepthFirst (above ++ [e.1]) e.2 leaves' → leaves = leaves')
    (hfirst : DepthFirstAll above entries first) (hsecond : DepthFirstAll above entries second) : first = second := by
  induction entries generalizing first second with
  | nil =>
    cases hfirst
    cases hsecond
    rfl
  | cons e rest ih =>
    obtain ⟨he, hrest⟩ := List.forall_mem_cons.mp h
    cases hfirst with
    | cons hinside hbehind =>
      cases hsecond with
      | cons hinside' hbehind' => rw [he _ _ hinside hinside', ih hrest hbehind hbehind']

/-- **The order is determined** in a tree where names differ. -/
theorem DepthFirst.unique {tree : FileTree} (h : NamesDiffer tree) {above : List FileName}
    {first second : List FileTree.Leaf} (hfirst : DepthFirst above tree first)
    (hsecond : DepthFirst above tree second) : first = second := by
  induction tree using FileTree.induct generalizing above first second with
  | file text =>
    cases hfirst
    cases hsecond
    rfl
  | sealedFile fault =>
    cases hfirst
    cases hsecond
    rfl
  | link target =>
    cases hfirst
    cases hsecond
    rfl
  | sealedDirectory fault =>
    cases hfirst
    cases hsecond
    rfl
  | directory entries ih =>
    cases h with
    | directory hnodup hbelow =>
      cases hfirst with
      | directory hperm hle hall =>
        cases hsecond with
        | directory hperm' hle' hall' =>
          cases sorted_unique hnodup hperm hperm' hle hle'
          refine hall.unique (fun e he leaves leaves' => ?_) hall'
          have hmem := hperm.mem_iff.mp he
          exact ih e hmem (hbelow e hmem)

/-! ### Names of files -/

/-- What ends a list without a certain item ends it behind that item. -/
theorem suffix_append_cons_iff {α : Type} {ending before behind : List α} {a : α} (h : a ∉ ending) :
    ending <:+ before ++ a :: behind ↔ ending <:+ behind := by
  have hbehind : behind <:+ before ++ a :: behind := ⟨before ++ [a], by simp⟩
  refine ⟨fun hending => ?_, fun hending => hending.trans hbehind⟩
  rcases List.suffix_or_suffix_of_suffix hending hbehind with hle | ⟨start, rfl⟩
  · exact hle
  · -- a longer ending would begin with `a` or in front of it
    rcases List.eq_nil_or_concat start with rfl | ⟨front, c, rfl⟩
    · exact List.suffix_refl behind
    · obtain ⟨outer, houter⟩ := hending
      have hsplit : (outer ++ front ++ [c]) ++ behind = (before ++ [a]) ++ behind := by simpa using houter
      have hc : c = a := by simpa using congrArg List.getLast? (List.append_cancel_right hsplit)
      exact absurd (by simp [hc]) h

/-- The same for the part of a list behind the last separator. -/
theorem suffix_getLast_splitOn_iff {ending : List Char} (h : '/' ∉ ending) (cs : List Char) :
    ending <:+ (cs.splitOn '/').getLast (List.splitOn_ne_nil '/' cs) ↔ ending <:+ cs := by
  by_cases hcs : '/' ∈ cs
  · obtain ⟨before, behind, hsplit⟩ := List.append_of_mem hcs
    have hlt : behind.length < cs.length := by
      rw [hsplit, List.length_append, List.length_cons]
      omega
    have ih := suffix_getLast_splitOn_iff h behind
    subst hsplit
    rw [suffix_append_cons_iff h, ← ih]
    simp [List.splitOn_append_cons_self]
  · simp [List.splitOn_eq_singleton hcs]
termination_by cs.length

theorem endsWith_iff {text ending : String} : text.endsWith ending = true ↔ ending.toList <:+ text.toList := by
  rw [String.endsWith_eq_endsWith_toSlice, String.Slice.endsWith_string_iff]
  simp

namespace LoadStep

theorem fileName_eq (path : String) :
    fileName path = String.ofList ((path.toList.splitOn '/').getLast (List.splitOn_ne_nil '/' path.toList)) := by
  rw [fileName, FileTree.components, List.getLast?_map,
    List.getLast?_eq_some_getLast (List.splitOn_ne_nil '/' path.toList)]
  rfl

theorem endsWith_fileName (path : String) : (fileName path).endsWith suffix = path.endsWith suffix := by
  rw [Bool.eq_iff_iff, endsWith_iff, endsWith_iff, fileName_eq, String.toList_ofList]
  exact suffix_getLast_splitOn_iff (by decide) path.toList

/-- Whether a leaf is named like a unit system file is told by the last of the names that lead on from a root, or by the
whole path of the root if there are none. -/
theorem isUnitSystem_leafName (root : String) (names : List FileName) :
    isUnitSystem (leafName root names) = (names.getLast?.elim (some root) FileName.text?).any (·.endsWith suffix) := by
  rw [leafName, isUnitSystem]
  cases names.getLast? with
  | none => simp [endsWith_fileName]
  | some name => rfl

end LoadStep
end CommandLine
end Dimensional
