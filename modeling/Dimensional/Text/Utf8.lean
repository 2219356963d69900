/-!
# Bytes as texts

Bytes that come from outside are texts in UTF-8, or ought to be. `Utf8.decode` gives the text, or tells where it breaks
off; `Utf8.glyphs` reads on behind such places and gives the characters together with what stands between them.
-/

namespace Dimensional

/-- A character, or a sequence of bytes that belongs to no character. -/
inductive Glyph where
  | char (c : Char)
  | stray (length : Nat)
deriving DecidableEq, Inhabited

namespace Glyph

/-- The number of bytes. -/
def size : Glyph → Nat
  | .char c => c.utf8Size
  | .stray length => length

/-- The character that is shown; a sign of replacement stands for bytes that belong to none. -/
def shown : Glyph → Char
  | .char c => c
  | .stray _ => '\ufffd'

def isChar : Glyph → Bool
  | .char _ => true
  | .stray _ => false

/-- The number of bytes of some glyphs. -/
def sizeOfAll (glyphs : List Glyph) : Nat :=
  glyphs.foldr (fun g n => g.size + n) 0

/-- The characters of a text. -/
def ofText (text : String) : List Glyph :=
  text.toList.map .char

end Glyph

namespace Utf8

/-- What follows the first byte of a character: the number of bytes, and the least and the greatest one that can come
next. -/
def following? (first : UInt8) : Option (Nat × UInt8 × UInt8) :=
  if first < 0x80 then some (0, 0x80, 0xBF)
  else if first < 0xC2 then none
  else if first < 0xE0 then some (1, 0x80, 0xBF)
  else if first = 0xE0 then some (2, 0xA0, 0xBF)
  else if first = 0xED then some (2, 0x80, 0x9F)
  else if first < 0xF0 then some (2, 0x80, 0xBF)
  else if first = 0xF0 then some (3, 0x90, 0xBF)
  else if first < 0xF4 then some (3, 0x80, 0xBF)
  else if first = 0xF4 then some (3, 0x80, 0x8F)
  else none

/-- How many bytes go on with a character that lacks `count` bytes, the next of which lies between two bounds. -/
def goingOn : Nat → UInt8 → UInt8 → List UInt8 → Nat
  | 0, _, _, _ => 0
  | _, _, _, [] => 0
  | count + 1, least, greatest, b :: rest =>
    if least ≤ b ∧ b ≤ greatest then goingOn count 0x80 0xBF rest + 1 else 0

/-- A sequence of bytes that is no character, and whether it could still become one behind the last byte. -/
structure Stray where
  length : Nat
  isCut : Bool

/-- The sequence at a place where no character stands. -/
def strayAt (bytes : ByteArray) (i : Nat) : Stray :=
  match (bytes.extract i (i + 4)).data.toList with
  | [] => ⟨1, false⟩
  | first :: rest =>
    match following? first with
    | none => ⟨1, false⟩
    | some (count, least, greatest) =>
      let length := goingOn count least greatest rest
      ⟨length + 1, length == rest.length⟩

theorem strayAt_pos (bytes : ByteArray) (i : Nat) : 0 < (strayAt bytes i).length := by
  unfold strayAt
  split
  · exact Nat.one_pos
  · split
    · exact Nat.one_pos
    · exact Nat.succ_pos _

/-- The characters from a place on, and what stands between them. -/
def glyphsFrom (bytes : ByteArray) (i : Nat) : List Glyph :=
  if i < bytes.size then
    match bytes.utf8DecodeChar? i with
    | some c => .char c :: glyphsFrom bytes (i + c.utf8Size)
    | none => .stray (strayAt bytes i).length :: glyphsFrom bytes (i + (strayAt bytes i).length)
  else []
termination_by bytes.size - i
decreasing_by
  · have hsize := c.utf8Size_pos
    omega
  · have hlength := strayAt_pos bytes i
    omega

/-- The characters of some bytes, and what stands between them. -/
def glyphs (bytes : ByteArray) : List Glyph :=
  match String.fromUTF8? bytes with
  | some text => Glyph.ofText text
  | none => glyphsFrom bytes 0

/-- Why bytes are no text. -/
structure Fault where
  /-- The number of bytes in front that are one. -/
  index : Nat
  stray : Stray

def Fault.message (f : Fault) : String :=
  if f.stray.isCut then "incomplete utf-8 byte sequence from index " ++ toString f.index
  else "invalid utf-8 sequence of " ++ toString f.stray.length ++ " bytes from index " ++ toString f.index

/-- The text of some bytes. -/
def decode (bytes : ByteArray) : Except Fault String :=
  match String.fromUTF8? bytes with
  | some text => .ok text
  | none =>
    let index := Glyph.sizeOfAll ((glyphs bytes).takeWhile Glyph.isChar)
    .error ⟨index, strayAt bytes index⟩

/-- Some bytes as they are shown. -/
def display (bytes : ByteArray) : String :=
  String.ofList ((glyphs bytes).map Glyph.shown)

@[simp]
theorem fromUTF8?_toUTF8 (text : String) : String.fromUTF8? text.toUTF8 = some text :=
  dif_pos text.isValidUTF8

@[simp]
theorem glyphs_toUTF8 (text : String) : glyphs text.toUTF8 = Glyph.ofText text := by
  rw [glyphs, fromUTF8?_toUTF8]

@[simp]
theorem decode_toUTF8 (text : String) : decode text.toUTF8 = .ok text := by
  rw [decode, fromUTF8?_toUTF8]

/-- Bytes that cannot start a character, a character that is cut off in the middle, and one at the end. -/
example : glyphs ⟨#[0x80, 0x41, 0xE2, 0x82, 0x42, 0xF0, 0x9F]⟩ =
    [.stray 1, .char 'A', .stray 2, .char 'B', .stray 2] := by
  decide +kernel

end Utf8
end Dimensional
