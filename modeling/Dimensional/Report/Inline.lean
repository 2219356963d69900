import Dimensional.Diagnostic

/-!
# Problems marked inside the source

Each message is put into the source at the place of its problem. At a place between two characters it stands before the
second one; otherwise it stands behind the last character of the span. All characters of the source are kept.
-/

namespace Dimensional

/-- The bold form of an ASCII letter or digit; any other character stays as it is. -/
def boldChar (c : Char) : Char :=
  if 'A' ≤ c ∧ c ≤ 'Z' then Char.ofNat (0x1D400 + (c.toNat - 'A'.toNat))
  else if 'a' ≤ c ∧ c ≤ 'z' then Char.ofNat (0x1D41A + (c.toNat - 'a'.toNat))
  else if '0' ≤ c ∧ c ≤ '9' then Char.ofNat (0x1D7CE + (c.toNat - '0'.toNat))
  else c

/-- A text with its ASCII letters and digits in bold. -/
def bold (text : String) : String :=
  String.ofList (text.toList.map boldChar)

/-- The texts around a message, and whether its letters are bold. -/
structure MarkStyle where
  /-- Around a message before a character. -/
  readingOpen : String
  readingClose : String
  /-- Around a message behind a character. -/
  trailingOpen : String
  trailingClose : String
  bold : Bool
deriving DecidableEq, Inhabited

namespace MarkStyle

/-- Bold messages in angle quotes, pointed at by a hand; a hole marks a place between two characters. -/
def pointed : MarkStyle where
  readingOpen := "🕳👈❮"
  readingClose := "❯"
  trailingOpen := "👈❮"
  trailingClose := "❯"
  bold := true

/-- ASCII marks. -/
def plain : MarkStyle where
  readingOpen := "^<<"
  readingClose := ">>"
  trailingOpen := "<<"
  trailingClose := ">>"
  bold := false

variable (style : MarkStyle)

/-- A message as it stands in a mark. -/
def messageText (message : String) : String :=
  if style.bold then Dimensional.bold message else message

/-- The mark of a message before a character. -/
def reading (message : String) : String :=
  style.readingOpen ++ style.messageText message ++ style.readingClose

/-- The mark of a message behind a character. -/
def trailing (message : String) : String :=
  style.trailingOpen ++ style.messageText message ++ style.trailingClose

end MarkStyle

/-! ### Marks around characters -/

/-- The marks before and behind a character. -/
structure MarkCell where
  reading : List String
  trailing : List String
deriving DecidableEq, Inhabited

namespace MarkCell

def empty : MarkCell := ⟨[], []⟩

def addReading (cell : MarkCell) (mark : String) : MarkCell :=
  { cell with reading := cell.reading ++ [mark] }

def addTrailing (cell : MarkCell) (mark : String) : MarkCell :=
  { cell with trailing := cell.trailing ++ [mark] }

/-- A character with the marks around it. The cell of the end of a source has no character. -/
def text (cell : MarkCell) (c : Option Char) : String :=
  String.join cell.reading ++ (c.elim "" Char.toString ++ String.join cell.trailing)

end MarkCell

namespace MarkStyle

variable (style : MarkStyle) (size : Nat)

/-- Put the mark of a diagnostic into the cell of its character. Places behind the end of the source count as the
end. -/
def addMark (cells : List MarkCell) (d : Diagnostic) : List MarkCell :=
  if d.span.isEmpty then
    cells.modify (min d.span.start size) fun cell => cell.addReading (style.reading d.message)
  else
    cells.modify (min (d.span.stop - 1) size) fun cell => cell.addTrailing (style.trailing d.message)

/-- The cells of a source with `size` characters: one for each character and one for the end. -/
def cells (diagnostics : List Diagnostic) : List MarkCell :=
  diagnostics.foldl (style.addMark size) (List.replicate (size + 1) .empty)

/-- A source with the messages of its diagnostics at their places. -/
def render (style : MarkStyle) (source : String) (diagnostics : List Diagnostic) : String :=
  let chars := source.toList
  String.join ((style.cells chars.length diagnostics).zipIdx.map fun p => p.1.text chars[p.2]?)

end MarkStyle
end Dimensional
