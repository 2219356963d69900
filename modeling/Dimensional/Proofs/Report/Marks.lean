import Dimensional.Report.Inline
import Mathlib.Data.List.Induction
import Mathlib.Data.List.Sigma

/-!
# Where the marks of a source stand

A source with marks is a list of parts, each a character of the source or the mark of a diagnostic (`Part`). `Arranges`
says which lists of parts are right: the characters are those of the source, every diagnostic is marked once, the mark
of a diagnostic has its `Diagnostic.place` of characters in front of it, and marks between the same two characters stand
in the order `Precedes`.

`cells_eq` says what the loop over the diagnostics leaves in each cell. The main statement is `render_arranges`: the
loop over the cells writes such a list of parts.
-/

namespace Dimensional

/-! ### Places -/

/-- How many characters of a source with `size` characters stand in front of the mark of a diagnostic. Behind the end
there is one more place, for the marks that follow the end. -/
def Diagnostic.place (size : Nat) (d : Diagnostic) : Nat :=
  if d.span.isEmpty then min d.span.start size else min (max d.span.stop 1 - 1) size + 1

namespace MarkStyle

/-- The order of diagnostics, each with its position in the list. At one place the marks behind the last character come
before those that read the next one, and marks of one kind keep the order of the list. -/
def Precedes (size : Nat) (p q : Diagnostic × Nat) : Prop :=
  p.1.place size < q.1.place size ∨ p.1.place size = q.1.place size ∧
    (p.1.span.isEmpty = false ∧ q.1.span.isEmpty = true ∨ p.1.span.isEmpty = q.1.span.isEmpty ∧ p.2 < q.2)

/-! ### Parts -/

/-- A part of a marked source: a character, or the mark of a diagnostic with its position in the list. -/
inductive Part where
  | char (c : Char)
  | mark (d : Diagnostic) (index : Nat)

namespace Part

def char? : Part → Option Char
  | .char c => some c
  | .mark .. => none

def mark? : Part → Option (Diagnostic × Nat)
  | .char _ => none
  | .mark d index => some (d, index)

/-- A mark before a character for a place between two characters, a mark behind one for any other diagnostic. -/
def text (style : MarkStyle) : Part → String
  | .char c => c.toString
  | .mark d _ => if d.span.isEmpty then style.reading d.message else style.trailing d.message

def ofMark (p : Diagnostic × Nat) : Part := .mark p.1 p.2

@[simp] theorem char?_char (c : Char) : (char c).char? = some c := rfl
@[simp] theorem char?_mark (d : Diagnostic) (index : Nat) : (mark d index).char? = none := rfl
@[simp] theorem mark?_char (c : Char) : (char c).mark? = none := rfl
@[simp] theorem char?_ofMark (p : Diagnostic × Nat) : (ofMark p).char? = none := rfl
@[simp] theorem mark?_ofMark (p : Diagnostic × Nat) : (ofMark p).mark? = some p := rfl

end Part

/-- The parts are the characters of a source with the marks of some diagnostics at their places. -/
structure Arranges (source : List Char) (diagnostics : List Diagnostic) (parts : List Part) : Prop where
  /-- The source is kept. -/
  chars : parts.filterMap Part.char? = source
  /-- Every diagnostic is marked once. -/
  marks : (parts.filterMap Part.mark?).Perm diagnostics.zipIdx
  /-- In front of a mark stand the characters up to its place. -/
  places : ∀ before d index after, parts = before ++ .mark d index :: after →
    before.filterMap Part.char? = source.take (d.place source.length)
  /-- Marks at one place are in order. -/
  ordered : (parts.filterMap Part.mark?).Pairwise (Precedes source.length)

/-! ### Cells -/

section Cells

variable (size : Nat) (diagnostics : List Diagnostic)

def marksAt (reading : Bool) (place : Nat) : List (Diagnostic × Nat) :=
  diagnostics.zipIdx.filter fun p => p.1.span.isEmpty == reading && p.1.place size == place

variable {size diagnostics}

theorem mem_marksAt {reading : Bool} {place : Nat} {p : Diagnostic × Nat} :
    p ∈ marksAt size diagnostics reading place ↔
      p ∈ diagnostics.zipIdx ∧ p.1.span.isEmpty = reading ∧ p.1.place size = place := by
  simp [marksAt]

theorem marksAt_append_singleton (d : Diagnostic) (reading : Bool) (place : Nat) :
    marksAt size (diagnostics ++ [d]) reading place = marksAt size diagnostics reading place ++
      if d.span.isEmpty = reading ∧ d.place size = place then [(d, diagnostics.length)] else [] := by
  rw [marksAt, List.zipIdx_append, List.filter_append, marksAt]
  congr 1
  by_cases h : d.span.isEmpty = reading ∧ d.place size = place <;> simp [h]

/-- What the cell at an index holds when all diagnostics are marked. -/
def cellAt (style : MarkStyle) (size : Nat) (diagnostics : List Diagnostic) (index : Nat) : MarkCell where
  reading := (marksAt size diagnostics true index).map fun p => style.reading p.1.message
  trailing := (marksAt size diagnostics false (index + 1)).map fun p => style.trailing p.1.message

theorem modify_map_range {α : Type} (f : Nat → α) (g : α → α) (n i : Nat) :
    ((List.range n).map f).modify i g = (List.range n).map fun k => if i = k then g (f k) else f k := by
  refine List.ext_getElem? fun k => ?_
  rw [List.getElem?_modify, List.getElem?_map, List.getElem?_map]
  by_cases hk : k < n
  · simp [hk]
  · simp [hk]

theorem addMark_cellAt (style : MarkStyle) (d : Diagnostic) :
    style.addMark size ((List.range (size + 1)).map (cellAt style size diagnostics)) d =
      (List.range (size + 1)).map (cellAt style size (diagnostics ++ [d])) := by
  unfold addMark
  split
  · next hd =>
    have hplace : d.place size = min d.span.start size := if_pos hd
    rw [modify_map_range]
    refine List.map_congr_left fun k _ => ?_
    simp only [cellAt, marksAt_append_singleton, hd, hplace]
    split <;> simp_all [MarkCell.addReading]
  · next hd =>
    have hempty : d.span.isEmpty = false := Bool.eq_false_iff.mpr hd
    have hplace : d.place size = min (d.span.stop - 1) size + 1 := by
      rw [Diagnostic.place, if_neg hd]
      omega
    rw [modify_map_range]
    refine List.map_congr_left fun k _ => ?_
    simp only [cellAt, marksAt_append_singleton, hempty, hplace]
    split <;> simp_all [MarkCell.addTrailing]

/-- **What the cells hold.** Every diagnostic is in the cell of its place, in the order of the list. -/
theorem cells_eq (style : MarkStyle) (size : Nat) (diagnostics : List Diagnostic) :
    style.cells size diagnostics = (List.range (size + 1)).map (cellAt style size diagnostics) := by
  induction diagnostics using List.reverseRecOn with
  | nil =>
    have hempty : cellAt style size [] = fun _ => MarkCell.empty := rfl
    rw [hempty, List.map_const', List.length_range]
    rfl
  | append_singleton ds d ih =>
    rw [← addMark_cellAt, ← ih, cells, List.foldl_append]
    rfl

end Cells

/-! ### The parts of a cell -/

section Layout

variable (chars : List Char) (diagnostics : List Diagnostic)

def cellParts (index : Nat) : List Part :=
  (marksAt chars.length diagnostics true index).map .ofMark ++
    (chars[index]?.toList.map .char ++ (marksAt chars.length diagnostics false (index + 1)).map .ofMark)

/-- The parts of the first `count` cells. -/
def layout (count : Nat) : List Part :=
  (List.range count).flatMap (cellParts chars diagnostics)

variable {chars diagnostics}

theorem layout_add_one (count : Nat) :
    layout chars diagnostics (count + 1) = layout chars diagnostics count ++ cellParts chars diagnostics count := by
  rw [layout, List.range_succ, List.flatMap_append, List.flatMap_singleton]
  rfl

/-! #### Texts -/

theorem toList_text_cellAt (style : MarkStyle) (index : Nat) :
    ((cellAt style chars.length diagnostics index).text chars[index]?).toList =
      (cellParts chars diagnostics index).flatMap fun p => (p.text style).toList := by
  have hreading : ∀ p ∈ marksAt chars.length diagnostics true index,
      style.reading p.1.message = (Part.ofMark p).text style := by
    intro p hp
    obtain ⟨-, hempty, -⟩ := mem_marksAt.mp hp
    simp [Part.ofMark, Part.text, hempty]
  have htrailing : ∀ p ∈ marksAt chars.length diagnostics false (index + 1),
      style.trailing p.1.message = (Part.ofMark p).text style := by
    intro p hp
    obtain ⟨-, hempty, -⟩ := mem_marksAt.mp hp
    simp [Part.ofMark, Part.text, hempty]
  have hchar : (chars[index]?.elim "" Char.toString).toList =
      chars[index]?.toList.flatMap fun c => c.toString.toList := by
    cases chars[index]? <;> simp
  simp only [cellAt, MarkCell.text, cellParts, String.toList_append, String.toList_join, List.flatMap_append,
    List.flatMap_map, hchar]
  rw [List.flatMap_congr fun p hp => congrArg String.toList (hreading p hp),
    List.flatMap_congr fun p hp => congrArg String.toList (htrailing p hp)]
  rfl

/-- The loop over the cells writes their parts. -/
theorem render_eq_layout (style : MarkStyle) (source : String) (diagnostics : List Diagnostic) :
    style.render source diagnostics =
      String.join ((layout source.toList diagnostics (source.toList.length + 1)).map (Part.text style)) := by
  have hindex : ∀ (f : Nat → MarkCell) (n : Nat),
      ((List.range n).map f).zipIdx = (List.range n).map fun k => (f k, k) := by
    intro f n
    refine List.ext_getElem? fun k => ?_
    by_cases hk : k < n <;> simp [hk]
  rw [← String.toList_inj, render]
  simp only [cells_eq, hindex, List.map_map, String.toList_join, List.flatMap_map, layout, List.flatMap_assoc]
  exact List.flatMap_congr fun k _ => toList_text_cellAt style k

/-! #### Characters and places -/

theorem chars_cellParts (index : Nat) :
    (cellParts chars diagnostics index).filterMap Part.char? = chars[index]?.toList := by
  simp [cellParts, List.filterMap_map, Function.comp_def]

theorem chars_layout (count : Nat) : (layout chars diagnostics count).filterMap Part.char? = chars.take count := by
  induction count with
  | zero => rfl
  | succ count ih => rw [layout_add_one, List.filterMap_append, ih, chars_cellParts, List.take_add_one]

/-- Every mark among the parts that follow the characters `seen` is at its place. -/
def Placed (chars seen : List Char) : List Part → Prop
  | [] => True
  | .char c :: rest => Placed chars (seen ++ [c]) rest
  | .mark d _ :: rest => seen = chars.take (d.place chars.length) ∧ Placed chars seen rest

theorem placed_append {seen : List Char} {ps qs : List Part} :
    Placed chars seen (ps ++ qs) ↔
      Placed chars seen ps ∧ Placed chars (seen ++ ps.filterMap Part.char?) qs := by
  induction ps generalizing seen with
  | nil => simp [Placed]
  | cons p ps ih =>
    cases p with
    | char c => simp [Placed, ih]
    | mark d index => simp [Placed, ih, and_assoc, List.filterMap_cons]

theorem placed_marks {seen : List Char} {ms : List (Diagnostic × Nat)}
    (h : ∀ p ∈ ms, seen = chars.take (p.1.place chars.length)) : Placed chars seen (ms.map .ofMark) := by
  induction ms with
  | nil => trivial
  | cons p ms ih => exact ⟨h p (by simp), ih fun q hq => h q (List.mem_cons_of_mem _ hq)⟩

theorem placed_cellParts (index : Nat) : Placed chars (chars.take index) (cellParts chars diagnostics index) := by
  have hreading : ∀ p ∈ marksAt chars.length diagnostics true index,
      chars.take index = chars.take (p.1.place chars.length) := by
    intro p hp
    rw [(mem_marksAt.mp hp).2.2]
  have htrailing : ∀ p ∈ marksAt chars.length diagnostics false (index + 1),
      chars.take index ++ chars[index]?.toList = chars.take (p.1.place chars.length) := by
    intro p hp
    rw [(mem_marksAt.mp hp).2.2, List.take_add_one]
  have hchar : Placed chars (chars.take index) (chars[index]?.toList.map .char) := by
    cases chars[index]? <;> trivial
  rw [cellParts, placed_append, placed_append]
  refine ⟨placed_marks hreading, ?_, ?_⟩
  · simpa [List.filterMap_map, Function.comp_def] using hchar
  · refine placed_marks ?_
    simpa [List.filterMap_map, Function.comp_def] using htrailing

theorem placed_layout (count : Nat) : Placed chars [] (layout chars diagnostics count) := by
  induction count with
  | zero => trivial
  | succ count ih =>
    rw [layout_add_one, placed_append, chars_layout]
    exact ⟨ih, placed_cellParts count⟩

/-! #### Marks -/

theorem marks_layout (count : Nat) :
    (layout chars diagnostics count).filterMap Part.mark? = (List.range count).flatMap fun k =>
      marksAt chars.length diagnostics true k ++ marksAt chars.length diagnostics false (k + 1) := by
  simp [layout, cellParts, List.filterMap_flatMap, List.filterMap_map, Function.comp_def]

theorem precedes_marksAt (size : Nat) (reading : Bool) (place : Nat) :
    (marksAt size diagnostics reading place).Pairwise (Precedes size) := by
  have hindices : diagnostics.zipIdx.Pairwise fun p q => p.2 < q.2 := by
    rw [← List.pairwise_map (f := Prod.snd), List.zipIdx_map_snd]
    exact List.pairwise_lt_range'
  refine (hindices.filter _).imp_of_mem fun {p q} hp hq hlt => ?_
  obtain ⟨-, hpk, hpp⟩ := mem_marksAt.mp hp
  obtain ⟨-, hqk, hqp⟩ := mem_marksAt.mp hq
  exact .inr ⟨hpp.trans hqp.symm, .inr ⟨hpk.trans hqk.symm, hlt⟩⟩

/-- Marks of the cells stand in order, since the place grows from cell to cell and within a cell. -/
theorem precedes_layout (count : Nat) :
    ((layout chars diagnostics count).filterMap Part.mark?).Pairwise (Precedes chars.length) := by
  rw [marks_layout, List.pairwise_flatMap]
  constructor
  · intro k _
    refine List.pairwise_append.mpr ⟨precedes_marksAt _ _ _, precedes_marksAt _ _ _, fun p hp q hq => ?_⟩
    have hpk := (mem_marksAt.mp hp).2.2
    have hqk := (mem_marksAt.mp hq).2.2
    exact .inl (by omega)
  · refine List.pairwise_lt_range.imp fun {k l} hkl p hp q hq => ?_
    rcases List.mem_append.mp hp with hp | hp <;> rcases List.mem_append.mp hq with hq | hq <;>
      obtain ⟨-, hpr, hpk⟩ := mem_marksAt.mp hp <;> obtain ⟨-, hqr, hqk⟩ := mem_marksAt.mp hq
    · exact .inl (by omega)
    · exact .inl (by omega)
    · -- the marks behind a character and those that read the next one share a place
      rcases Nat.lt_or_ge (k + 1) l with hlt | hge
      · exact .inl (by omega)
      · exact .inr ⟨by omega, .inl ⟨hpr, hqr⟩⟩
    · exact .inl (by omega)

theorem Precedes.asymm {size : Nat} {p q : Diagnostic × Nat} (h : Precedes size p q) : ¬ Precedes size q p := by
  unfold Precedes at h ⊢
  grind

theorem Precedes.ne {size : Nat} {p q : Diagnostic × Nat} (h : Precedes size p q) : p ≠ q := by
  rintro rfl
  exact h.asymm h

/-- Every diagnostic has a cell. -/
theorem mem_marks_layout {p : Diagnostic × Nat} :
    p ∈ (layout chars diagnostics (chars.length + 1)).filterMap Part.mark? ↔ p ∈ diagnostics.zipIdx := by
  rw [marks_layout]
  simp only [List.mem_flatMap, List.mem_range, List.mem_append, mem_marksAt]
  constructor
  · rintro ⟨k, -, ⟨hp, -⟩ | ⟨hp, -⟩⟩ <;> exact hp
  · intro hp
    cases hempty : p.1.span.isEmpty with
    | true =>
      refine ⟨min p.1.span.start chars.length, by omega, .inl ⟨hp, rfl, ?_⟩⟩
      rw [Diagnostic.place, if_pos hempty]
    | false =>
      refine ⟨min (max p.1.span.stop 1 - 1) chars.length, by omega, .inr ⟨hp, rfl, ?_⟩⟩
      rw [Diagnostic.place, if_neg (by rw [hempty]; exact Bool.false_ne_true)]

theorem perm_marks_layout :
    ((layout chars diagnostics (chars.length + 1)).filterMap Part.mark?).Perm diagnostics.zipIdx := by
  have hordered : ((layout chars diagnostics (chars.length + 1)).filterMap Part.mark?).Pairwise _ := precedes_layout _
  have hmarks := hordered.imp Precedes.ne
  have hindices : diagnostics.zipIdx.Nodup := .of_map Prod.snd (List.nodup_zipIdx_map_snd diagnostics)
  exact (List.perm_ext_iff_of_nodup hmarks hindices).mpr fun p => mem_marks_layout

end Layout

/-! ### Arrangements -/

section Unique

variable {chars seen : List Char} {diagnostics : List Diagnostic} {ps qs : List Part}

theorem placed_iff : Placed chars seen ps ↔ ∀ before d index after, ps = before ++ .mark d index :: after →
    seen ++ before.filterMap Part.char? = chars.take (d.place chars.length) := by
  constructor
  · rintro h before d index after rfl
    exact (placed_append.mp h).2.1
  · intro h
    induction ps generalizing seen with
    | nil => trivial
    | cons p ps ih =>
      have hrest : ∀ before d index after, ps = before ++ .mark d index :: after →
          seen ++ (p :: before).filterMap Part.char? = chars.take (d.place chars.length) :=
        fun before d index after hps => h (p :: before) d index after (by rw [hps]; rfl)
      cases p with
      | char c => exact ih fun before d index after hps => by simpa using hrest before d index after hps
      | mark d index =>
        refine ⟨by simpa using h [] d index ps rfl, ih fun before d' index' after hps => ?_⟩
        simpa [List.filterMap_cons] using hrest before d' index' after hps

/-- No mark that stands here can stand behind one more character. -/
theorem not_placed_behind {c : Char} {d : Diagnostic} {index : Nat} (hp : Placed chars (seen ++ [c]) ps)
    (hm : (d, index) ∈ ps.filterMap Part.mark?) : seen ≠ chars.take (d.place chars.length) := by
  intro hseen
  obtain ⟨p, hp', hmark⟩ := List.mem_filterMap.mp hm
  obtain rfl : p = .mark d index := by
    cases p with
    | char c => cases hmark
    | mark d' index' => cases hmark; rfl
  obtain ⟨before, after, hps⟩ := List.append_of_mem hp'
  have hplace := placed_iff.mp hp before d index after hps
  rw [← hseen] at hplace
  have hlength := congrArg List.length hplace
  simp only [List.length_append, List.length_singleton] at hlength
  omega

/-- The characters, the marks and the places of the marks determine the parts. -/
theorem Placed.eq (hp : Placed chars seen ps) (hq : Placed chars seen qs)
    (hc : ps.filterMap Part.char? = qs.filterMap Part.char?)
    (hm : ps.filterMap Part.mark? = qs.filterMap Part.mark?) : ps = qs := by
  induction ps generalizing seen qs with
  | nil =>
    cases qs with
    | nil => rfl
    | cons q qs => cases q <;> simp [List.filterMap_cons, Part.mark?] at hc hm
  | cons p ps ih =>
    cases p with
    | char c =>
      cases qs with
      | nil => simp at hc
      | cons q qs =>
        cases q with
        | char c' =>
          simp only [List.filterMap_cons, Part.char?_char, Part.mark?_char, List.cons.injEq] at hc hm
          obtain ⟨rfl, hc⟩ := hc
          rw [ih hp hq hc hm]
        | mark d index =>
          -- the mark is in the other list, too, but only behind one more character
          have hmem : (d, index) ∈ ps.filterMap Part.mark? := by
            simp only [List.filterMap_cons, Part.mark?_char] at hm
            rw [hm]
            exact List.mem_cons_self
          exact absurd hq.1 (not_placed_behind hp hmem)
    | mark d index =>
      cases qs with
      | nil => simp [Part.mark?] at hm
      | cons q qs =>
        cases q with
        | char c =>
          have hmem : (d, index) ∈ qs.filterMap Part.mark? := by
            simp only [List.filterMap_cons, Part.mark?_char] at hm
            rw [← hm]
            exact List.mem_cons_self
          exact absurd hp.1 (not_placed_behind hq hmem)
        | mark d' index' =>
          simp only [List.filterMap_cons, Part.char?_mark, Part.mark?, List.cons.injEq, Prod.mk.injEq] at hc hm
          obtain ⟨⟨rfl, rfl⟩, hm⟩ := hm
          rw [ih hp.2 hq.2 hc hm]

/-- A source and its diagnostics have one arrangement at most. -/
theorem Arranges.unique (hp : Arranges chars diagnostics ps) (hq : Arranges chars diagnostics qs) : ps = qs := by
  have hmarks : ps.filterMap Part.mark? = qs.filterMap Part.mark? :=
    List.Perm.eq_of_pairwise (fun _ _ _ _ h h' => absurd h' h.asymm) hp.ordered hq.ordered
      (hp.marks.trans hq.marks.symm)
  have hps : Placed chars [] ps := placed_iff.mpr hp.places
  have hqs : Placed chars [] qs := placed_iff.mpr hq.places
  exact hps.eq hqs (hp.chars.trans hq.chars.symm) hmarks

/-- The parts of all cells are an arrangement. -/
theorem arranges_layout : Arranges chars diagnostics (layout chars diagnostics (chars.length + 1)) where
  chars := by rw [chars_layout, List.take_of_length_le (Nat.le_succ _)]
  marks := perm_marks_layout
  places := placed_iff.mp (placed_layout _)
  ordered := precedes_layout _

end Unique

/-- **Rendering puts one mark for each diagnostic at its place and keeps the source**: the characters and the marks have
exactly one arrangement, and the rendered source is its text. -/
theorem render_arranges (style : MarkStyle) (source : String) (diagnostics : List Diagnostic) :
    ∃ parts, (∀ ps, Arranges source.toList diagnostics ps ↔ ps = parts) ∧
      style.render source diagnostics = String.join (parts.map (Part.text style)) := by
  refine ⟨_, fun ps => ⟨fun h => h.unique arranges_layout, ?_⟩, render_eq_layout style source diagnostics⟩
  rintro rfl
  exact arranges_layout

/-- Marks that share a place: one behind a character comes before one that reads the next, but follows it at the end. -/
example : plain.render "ab"
    [⟨⟨.numberRequired, ⟨1, 1⟩, .none⟩, "p"⟩, ⟨⟨.numberRequired, ⟨0, 1⟩, .none⟩, "q"⟩,
      ⟨⟨.numberRequired, ⟨9, 4⟩, .none⟩, "r"⟩, ⟨⟨.numberRequired, ⟨7, 7⟩, .none⟩, "s"⟩] =
    "a<<q>>^<<p>>b^<<s>><<r>>" := by decide

end MarkStyle
end Dimensional
