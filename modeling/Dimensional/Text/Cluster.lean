import Dimensional.Text.Emoji
import Dimensional.Text.Width

/-!
# Widths of texts

How many columns a text takes in a fixed-width display. Some characters are shown as one: emoji, flags and keys that are
joined, emoji with a skin tone, characters with a selector behind them, and the letters that a few scripts write as one
sign. So a text is measured from its end, and each character sees what is behind it.
-/

namespace Dimensional

/-! ### Letters that are written as one -/

/-- The code points without a column that keep Arabic letters apart. -/
def separatingRanges : List (Nat × Nat) :=
  [(0x605, 0x605), (0x890, 0x891), (0x8E2, 0x8E2), (0x9BE, 0x9BE), (0x9D7, 0x9D7), (0xB3E, 0xB3E), (0xB57, 0xB57),
    (0xBBE, 0xBBE), (0xBD7, 0xBD7), (0xCC0, 0xCC0), (0xCC2, 0xCC2), (0xCC7, 0xCC8), (0xCCA, 0xCCB), (0xCD5, 0xCD6),
    (0xD3E, 0xD3E), (0xD4E, 0xD4E), (0xD57, 0xD57), (0xDCF, 0xDCF), (0xDDF, 0xDDF), (0x1160, 0x11FF), (0x1715, 0x1715),
    (0x1734, 0x1734), (0x180E, 0x180E), (0x1B35, 0x1B35), (0x1B3B, 0x1B3B), (0x1B3D, 0x1B3D), (0x1B43, 0x1B44),
    (0x1BAA, 0x1BAA), (0x1BF2, 0x1BF3), (0x200C, 0x200D), (0x2065, 0x2069), (0x302E, 0x302F), (0x3164, 0x3164),
    (0xA8FA, 0xA8FA), (0xA953, 0xA953), (0xA9C0, 0xA9C0), (0xD7B0, 0xD7C6), (0xD7CB, 0xD7FB), (0xFFA0, 0xFFA0),
    (0xFFF0, 0xFFF8), (0x111C0, 0x111C0), (0x111C2, 0x111C3), (0x11235, 0x11235), (0x1133E, 0x1133E),
    (0x1134D, 0x1134D), (0x11357, 0x11357), (0x113B8, 0x113B8), (0x113C2, 0x113C2), (0x113C5, 0x113C5),
    (0x113C7, 0x113C9), (0x113CF, 0x113CF), (0x113D1, 0x113D1), (0x114B0, 0x114B0), (0x114BD, 0x114BD),
    (0x115AF, 0x115AF), (0x116B6, 0x116B6), (0x11930, 0x11930), (0x1193D, 0x1193D), (0x1193F, 0x1193F),
    (0x11941, 0x11941), (0x11A84, 0x11A89), (0x11D46, 0x11D46), (0x11F02, 0x11F02), (0x11F41, 0x11F41),
    (0x16FF0, 0x16FF1), (0x1D165, 0x1D166), (0x1D16D, 0x1D172), (0xE0000, 0xE0000), (0xE0002, 0xE001F),
    (0xE0080, 0xE00FF), (0xE01F0, 0xE0FFF)]

/-- Whether Arabic letters join across a character: it has no column and keeps nothing apart. -/
def isArabicTransparent (c : Char) : Bool :=
  hasNoWidth c && !inRanges separatingRanges c.toNat

/-- The forms of the Arabic letter alef. -/
def isAlef (c : Char) : Bool :=
  inRanges [(0x622, 0x623), (0x625, 0x625), (0x627, 0x627), (0x671, 0x673), (0x675, 0x675), (0x773, 0x774),
    (0x870, 0x882)] c.toNat

/-- The forms of the Arabic letter lam. -/
def isLam (c : Char) : Bool :=
  inRanges [(0x644, 0x644), (0x6B5, 0x6B8), (0x76A, 0x76A), (0x8A6, 0x8A6), (0x8C7, 0x8C7)] c.toNat

/-- The Khmer letters that are written below the letter in front of them, behind the sign coeng. -/
def isCoengLetter (c : Char) : Bool :=
  inRanges [(0x1780, 0x1782), (0x1784, 0x1787), (0x1789, 0x178C), (0x178E, 0x1793), (0x1795, 0x1798),
    (0x179B, 0x179D), (0x17A0, 0x17A0), (0x17A2, 0x17A2), (0x17A7, 0x17A7), (0x17AB, 0x17AC), (0x17AF, 0x17AF)] c.toNat

/-- The consonants of the script Tifinagh. -/
def isTifinaghConsonant (c : Char) : Bool :=
  inRanges [(0x2D31, 0x2D65), (0x2D6F, 0x2D6F)] c.toNat

/-- The marks that are ignored inside a sign of several letters. -/
def isIgnoredMark (c : Char) : Bool :=
  inRanges [(0x34F, 0x34F), (0x17B4, 0x17B5), (0x180B, 0x180D), (0x180F, 0x180F), (0xFE00, 0xFE0F),
    (0xE0100, 0xE01EF)] c.toNat

/-! ### What is behind a character -/

/-- The character behind, or the sign that the characters behind are shown as. -/
inductive Neighbour where
  /-- Nothing that a character in front of it could join. -/
  | plain
  | lineFeed
  | emoji
  | skinTone
  | flagLetter
  /-- Two or more letters of flags. -/
  | flagLetters
  /-- A joiner with an emoji behind it. -/
  | joinedEmoji
  /-- The frame of a key that is joined to an emoji. -/
  | joinedFrame
  /-- A single letter of a flag that is joined to an emoji. -/
  | joinedLetter
  /-- An even number of letters of flags that are joined to an emoji. -/
  | joinedFlags
  /-- Three or a greater odd number of letters of flags that are joined to an emoji. -/
  | joinedOddLetters
  /-- The end of a name in tags that is joined to an emoji, with a number of letters in front of it. -/
  | joinedTagLetters (count : Nat)
  /-- Such a name with a number of digits in front of its letters. -/
  | joinedTagDigits (count : Nat)
  | alef
  | lamed
  | bugineseYa
  /-- The vowel sign that joins the Buginese letter ya. -/
  | bugineseVowel
  | tifinagh
  /-- The joiner of Tifinagh consonants with a consonant behind it. -/
  | tifinaghJoiner
  /-- One of the tone letters that follow another one in the script Lisu. -/
  | lisuTone
  | orkhonI
  | coengLetter
  /-- The vowel signs E and AI of the script Kirat Rai. -/
  | kiratE
  | kiratAi
deriving DecidableEq, Inhabited

namespace Neighbour

/-- Whether ignored marks may stand between the letters of a sign. -/
def ignoresMarks : Neighbour → Bool
  | .lamed | .bugineseYa | .bugineseVowel | .tifinagh | .tifinaghJoiner | .lisuTone | .orkhonI | .coengLetter => true
  | _ => false

/-- Whether selectors may stand between the letters of a sign. -/
def ignoresSelectors (n : Neighbour) : Bool :=
  n == .alef || n.ignoresMarks

/-- Whether a character that is selected as a picture joins what is behind it. -/
def joinsPicture (n : Neighbour) : Bool :=
  n == .joinedEmoji || n == .joinedFrame

end Neighbour

/-- What the character behind a character selects: a picture, a plain sign, or a quotation mark as wide as an
ideograph. -/
inductive Selector where
  | picture
  | plainSign
  | wideQuote
deriving DecidableEq, Inhabited

/-- The selector that a character is. -/
def Selector.ofChar? (c : Char) : Option Selector :=
  if c = '\uFE0F' then some .picture
  else if c = '\uFE0E' then some .plainSign
  else if c = '\uFE01' then some .wideQuote
  else none

/-- What a character sees behind it. -/
structure Behind where
  neighbour : Neighbour
  /-- Whether a zero width joiner stands in front of a letter that can be joined. -/
  joined : Bool
  /-- A selector directly behind the character. -/
  selector : Option Selector
deriving DecidableEq, Inhabited

namespace Behind

/-- A neighbour without a joiner and a selector. -/
def of (n : Neighbour) : Behind := ⟨n, false, none⟩

/-- What is behind a character when no text follows. -/
def nothing : Behind := of .plain

/-- Put a selector in front. It hides what is behind it except inside signs of several letters and, if it selects a
picture, in front of what a picture joins. -/
def select (b : Behind) (s : Selector) : Behind :=
  if b.neighbour.ignoresSelectors || (b.neighbour.joinsPicture && s == .picture) then { b with selector := some s }
  else { nothing with selector := some s }

/-- Take a selector away that has no effect. -/
def dropSelector (b : Behind) : Behind :=
  if b.selector.isNone then b
  else if b.neighbour.ignoresSelectors then { b with selector := none }
  else nothing

end Behind

/-! ### Measuring -/

/-- The quotation marks that may be as wide as an ideograph. -/
def isCurlyQuote (c : Char) : Bool :=
  c == '\u2018' || c == '\u2019' || c == '\u201C' || c == '\u201D'

/-- The columns of a character with the selector behind it, and what the character in front of it sees; none if there
is no selector or it has no effect. -/
def selected? (c : Char) (b : Behind) : Option (Int × Behind) :=
  match b.selector with
  | some .picture => if isSelectable c then some (if b.neighbour.joinsPicture then 0 else 2, .of .emoji) else none
  | some .plainSign => if isSelectableEmoji c then some (1, .nothing) else none
  | some .wideQuote => if isCurlyQuote c then some (2, .nothing) else none
  | none => none

/-- What a character is for the one in front of it. -/
def neighbourOf (c : Char) : Neighbour :=
  if isAlef c then .alef
  else if c = '\u05DC' then .lamed
  else if c = '\u1A10' then .bugineseYa
  else if isTifinaghConsonant c then .tifinagh
  else if c = '\uA4FC' ∨ c = '\uA4FD' then .lisuTone
  else if c.toNat = 0x10C03 then .orkhonI
  else if isCoengLetter c then .coengLetter
  else if c.toNat = 0x16D67 then .kiratE
  else if c.toNat = 0x16D68 then .kiratAi
  else if isSkinTone c then .skinTone
  else if isFlagLetter c then .flagLetter
  else if isEmoji c then .emoji
  else .plain

/-- The columns that a character adds to a sign with what is behind it, and what the character in front of it sees;
none if the character begins a sign of its own. The flag of a region has a name in tags: three to six letters, or three
digits and up to four letters. -/
def join? (c : Char) (b : Behind) : Option (Int × Behind) :=
  let add (width : Int) (n : Neighbour) : Option (Int × Behind) := some (width, .of n)
  match b.neighbour with
  | .alef => if isLam c then add 0 .plain else if isArabicTransparent c then add 0 .alef else none
  | .lamed => if b.joined ∧ c = '\u05D0' then add 0 .plain else none
  | .coengLetter => if c = '\u17D2' then add (-1) .plain else none
  | .bugineseYa => if b.joined ∧ c = '\u1A17' then add 0 .bugineseVowel else none
  | .bugineseVowel => if c = '\u1A15' then add 0 .plain else none
  | .tifinagh =>
    if c = '\u2D7F' then add 1 .tifinaghJoiner
    else if b.joined ∧ isTifinaghConsonant c then add 0 .plain
    else none
  | .tifinaghJoiner => if isTifinaghConsonant c then add (-1) .plain else none
  | .lisuTone => if 0xA4F8 ≤ c.toNat ∧ c.toNat ≤ 0xA4FB then add 0 .plain else none
  | .orkhonI => if b.joined ∧ c.toNat = 0x10C32 then add 0 .plain else none
  | .skinTone => if hasSkin c then add 0 .emoji else if c = '\u200D' then add 0 .joinedEmoji else none
  | .emoji => if c = '\u200D' then add 0 .joinedEmoji else none
  | .flagLetter => if isFlagLetter c then add 1 .flagLetters else none
  | .flagLetters =>
    if isFlagLetter c then add 1 .flagLetters else if c = '\u200D' then add 0 .joinedEmoji else none
  | .joinedEmoji =>
    if isSkinTone c then add 0 .skinTone
    else if isFlagLetter c then add 1 .joinedLetter
    else if isKeyFrame c then add 0 .joinedFrame
    else if isTagEnd c then add 0 (.joinedTagLetters 0)
    else if isEmoji c then add 0 .emoji
    else none
  | .joinedLetter => if isFlagLetter c then add (-1) .joinedFlags else none
  | .joinedFlags =>
    if isFlagLetter c then add 3 .joinedOddLetters else if c = '\u200D' then add 0 .joinedEmoji else none
  | .joinedOddLetters =>
    if isFlagLetter c then add (-1) .joinedFlags else if c = '\u200D' then add 0 .joinedEmoji else none
  | .joinedTagLetters n =>
    if isTagLetter c ∧ n < 6 then add 0 (.joinedTagLetters (n + 1))
    else if isTagDigit c ∧ n ≤ 4 then add 0 (.joinedTagDigits 1)
    else if isBlackFlag c ∧ 3 ≤ n then add 0 .emoji
    else none
  | .joinedTagDigits n =>
    if isTagDigit c ∧ n < 3 then add 0 (.joinedTagDigits (n + 1))
    else if isBlackFlag c ∧ n = 3 then add 0 .emoji
    else none
  | .kiratE =>
    if c.toNat = 0x16D67 then add 0 .kiratAi
    else if c.toNat = 0x16D68 then add 1 .kiratE
    else if c.toNat = 0x16D63 ∨ c.toNat = 0x16D69 then add 0 .plain
    else none
  | .kiratAi => if c.toNat = 0x16D63 then add 0 .plain else none
  | .joinedFrame | .plain | .lineFeed => none

/-- The columns that a character adds in front of what is behind it, and what the character in front of it sees. -/
def measure (c : Char) (behind : Behind) : Int × Behind :=
  match selected? c behind, Selector.ofChar? c with
  | some shown, _ => shown
  | none, some s => (0, behind.dropSelector.select s)
  | none, none =>
    let b := behind.dropSelector
    if c.toNat ≤ 0xA0 then
      if c = '\n' then (1, .of .lineFeed)
      else if c = '\r' ∧ b.neighbour = .lineFeed then (0, .nothing)
      else (1, .nothing)
    else if b.neighbour.ignoresMarks ∧ c = '\u200D' then (0, { b with joined := true })
    else if b.neighbour.ignoresMarks ∧ isIgnoredMark c then (0, b)
    else (join? c b).getD (Int.ofNat (charWidth c), .of (neighbourOf c))

/-- The columns of a text, and what a character in front of it would see. -/
def measureAll (cs : List Char) : Int × Behind :=
  cs.foldr (fun c rest => let (width, b) := measure c rest.2; (rest.1 + width, b)) (0, .nothing)

/-- The number of columns of a text. -/
def displayWidth (cs : List Char) : Nat :=
  (measureAll cs).1.toNat

end Dimensional
