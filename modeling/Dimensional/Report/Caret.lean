import Dimensional.Diagnostic
import Dimensional.Text.Width

/-!
# Problems marked below the source

A report of a problem shows the lines of the source that it spans, with an arrow from the marked characters to what is
known about them. A span in one line is underlined below the line; a longer one is bracketed in the margin.
-/

namespace Dimensional

/-! ### Lines of a source -/

/-- Whether a character ends a line. -/
def isLineBreak (c : Char) : Bool :=
  c == '\r' || c == '\n' || c == '\x0b' || c == '\x0c' || c == '\u0085' || c == '\u2028' || c == '\u2029'

/-- The lines of a text, each with the break that ends it. A carriage return and a line feed are one break. -/
def splitLines : List Char → List (List Char)
  | [] => []
  | '\r' :: '\n' :: rest => ['\r', '\n'] :: splitLines rest
  | c :: rest =>
    if isLineBreak c then [c] :: splitLines rest
    else
      match splitLines rest with
      | [] => [[c]]
      | line :: more => (c :: line) :: more

/-- A line with its number, the offset of its first character in the source, and the break that ends it. -/
structure SourceLine where
  number : Nat
  offset : Nat
  chars : List Char
deriving DecidableEq, Inhabited

namespace SourceLine

/-- The offset behind the last character. -/
def stop (l : SourceLine) : Nat :=
  l.offset + l.chars.length

/-- Lines that follow each other, from the number and the offset of the first one. -/
def numbered (n offset : Nat) : List (List Char) → List SourceLine
  | [] => []
  | cs :: rest => ⟨n, offset, cs⟩ :: numbered (n + 1) (offset + cs.length) rest

/-- The lines of a source. -/
def ofSource (source : List Char) : List SourceLine :=
  numbered 1 0 (splitLines source)

/-- The line that an offset lies in. The end of the source lies in the last line. -/
def at? (lines : List SourceLine) (offset : Nat) : Option SourceLine :=
  (lines.filter fun l => l.offset ≤ offset).getLast?

/-! ### Lines as they are shown -/

/-- The distance of tab stops. -/
def tabWidth : Nat := 4

/-- What is shown for the character at a column, and how many columns it takes. Reports keep to the widths of
Unicode 15.1. -/
def cell (column : Nat) (c : Char) : Char × Nat :=
  if c = '\t' then (' ', tabWidth - column % tabWidth)
  else if isBlank c then (' ', 1)
  else (c, earlierWidth c)

/-- The cells of a line without the blanks at its end. -/
def cells (l : SourceLine) : List (Char × Nat) :=
  (dropBlankEnd l.chars).zipIdx.map fun p => cell p.2 p.1

/-- The line as it is shown. -/
def shown (l : SourceLine) : String :=
  String.ofList (l.cells.flatMap fun p => if p.1 = ' ' then List.replicate p.2 ' ' else [p.1])

/-- A row below a line: for each of the first `count` characters a mark as wide as the character. A mark has a first
column and one that fills the others. -/
def below (l : SourceLine) (count : Nat) (mark : Nat → Char × Char) : String :=
  String.ofList ((List.range count).flatMap fun i =>
    match ((l.cells[i]?).map Prod.snd).getD 1 with
    | 0 => []
    | n + 1 => (mark i).1 :: List.replicate n (mark i).2)

end SourceLine

/-! ### Reports -/

namespace CaretReport

/-- What is known about the marked characters. -/
def labelText (d : Diagnostic) : String :=
  match d.detail with
  | .none => ""
  | .token surface => "found '" ++ surface ++ "'"
  | .cycle unit _ => "'" ++ unit ++ "' is defined in terms of itself"
  | .malformed text => text

def blanks (n : Nat) : String :=
  String.ofList (List.replicate n ' ')

/-- The margin of a row without a line number, where numbers have `width` digits. -/
def margin (width : Nat) : String :=
  blanks (width + 2) ++ "│ "

/-- The margin of lines that are left out. -/
def gapMargin (width : Nat) : String :=
  blanks (width + 2) ++ "┆ "

/-- The margin of a line. -/
def numberMargin (width number : Nat) : String :=
  " " ++ blanks (width - (toString number).length) ++ toString number ++ " │ "

/-- How far arrows reach beyond the marked characters. -/
def arrowSpace : Nat := 2

variable (width start stop : Nat) (label : String)

/-- A line with a span in it underlined. An arrow leads from its middle to the label. -/
def underlined (line : SourceLine) : List String :=
  let first := start - line.offset
  let last := stop - line.offset
  let middle := (start + stop) / 2 - line.offset
  [numberMargin width line.number ++ line.shown,
    margin width ++ line.below (last + arrowSpace) fun i =>
      if i = middle then ('┬', '─') else if first ≤ i ∧ i < last then ('─', '─') else (' ', ' '),
    margin width ++ (line.below (last + arrowSpace) fun i =>
      if i = middle then ('╰', '─') else if middle < i then ('─', '─') else (' ', ' ')) ++ " " ++ label]

/-- The first line of a span over several lines. -/
def opened (line : SourceLine) : List String :=
  [numberMargin width line.number ++ "╭─▶ " ++ line.shown]

/-- The last line of a span over several lines, with an arrow to the label. -/
def closed (line : SourceLine) : List String :=
  let count := line.chars.length + arrowSpace
  [numberMargin width line.number ++ "├─▶ " ++ line.shown,
    margin width ++ "│   " ++ line.below count fun _ => (' ', ' '),
    margin width ++ "╰───" ++ (line.below count fun _ => ('─', '─')) ++ " " ++ label]

/-- The rows for a span from one line to another. A span that goes beyond the end of the source has no last line and no
arrow. -/
def marked (first last : SourceLine) : List String :=
  if first = last then
    if stop ≤ last.stop then underlined width start stop label last else [margin width]
  else
    let isClosed := stop ≤ last.stop
    let between := last.number - first.number - if isClosed then 1 else 0
    opened width first ++ (if between = 0 then [] else [gapMargin width ++ "┆   "]) ++
      if isClosed then closed width label last else []

/-- The rows for the path of a cycle. A bracket that begins in the second line shows beside them. -/
def notes (first last : SourceLine) (path : List String) : List String :=
  let bracket :=
    if first = last then ""
    else if first.number = 2 ∧ first.offset = start then "│   "
    else "    "
  [margin width ++ bracket, margin width ++ bracket ++ "Note: Expansion path: " ++ Diagnostic.pathText path]

/-- The report below its first row: where the problem is, the source with the problem marked, and a path. -/
def body (lines : List SourceLine) (d : Diagnostic) : List String :=
  let start := d.span.start
  let stop := max d.span.stop (start + 1)
  match SourceLine.at? lines start, SourceLine.at? lines (stop - 1) with
  | some first, some last =>
    let width := (toString last.number).length
    let place := toString first.number ++ ":" ++ toString (start - first.offset + 1)
    [blanks (width + 2) ++ "╭─[<units>:" ++ place ++ "]", blanks (width + 2) ++ "│"] ++
      marked width start stop (labelText d) first last ++
      (match d.detail with
        | .cycle _ path => notes width start first last path
        | _ => []) ++
      [String.ofList (List.replicate (width + 2) '─') ++ "╯"]
  | _, _ => []

/-- The rows of a report. A blank behind the source gives its end a column; a problem that lies beyond it is told
without the source. -/
def rows (source : String) (d : Diagnostic) : List String :=
  let chars := source.toList ++ [' ']
  ("[" ++ d.id.key ++ "] Error: " ++ d.message) ::
    if max d.span.stop (d.span.start + 1) ≤ chars.length + 1 then body (SourceLine.ofSource chars) d else []

/-- The reports of some diagnostics, one after the other. -/
def render (source : String) (diagnostics : List Diagnostic) : String :=
  String.join ((diagnostics.flatMap (rows source)).map (· ++ "\n"))

end CaretReport
end Dimensional
