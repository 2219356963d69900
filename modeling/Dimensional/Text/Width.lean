import Dimensional.Text.GraphemeExtend

/-!
# Widths of characters

How many columns a character takes in a fixed-width display: wide East Asian characters and emoji take two columns,
marks that join the character before them and characters that are not meant to be seen none, all others one. The widths
follow Unicode 18; `earlierWidth` gives those of Unicode 15.1.
-/

namespace Dimensional

/-- The code points that take two columns: East Asian wide and fullwidth ones. -/
def wideRanges : List (Nat × Nat) :=
  [(0x1100, 0x115F), (0x231A, 0x231B), (0x2329, 0x232A), (0x23E9, 0x23EC), (0x23F0, 0x23F0), (0x23F3, 0x23F3),
    (0x25FD, 0x25FE), (0x2614, 0x2615), (0x2630, 0x2637), (0x2648, 0x2653), (0x267F, 0x267F), (0x268A, 0x268F),
    (0x2693, 0x2693), (0x26A1, 0x26A1), (0x26AA, 0x26AB), (0x26BD, 0x26BE), (0x26C4, 0x26C5), (0x26CE, 0x26CE),
    (0x26D4, 0x26D4), (0x26EA, 0x26EA), (0x26F2, 0x26F3), (0x26F5, 0x26F5), (0x26FA, 0x26FA), (0x26FD, 0x26FD),
    (0x2705, 0x2705), (0x270A, 0x270B), (0x2728, 0x2728), (0x274C, 0x274C), (0x274E, 0x274E), (0x2753, 0x2755),
    (0x2757, 0x2757), (0x2795, 0x2797), (0x27B0, 0x27B0), (0x27BF, 0x27BF), (0x2B1B, 0x2B1C), (0x2B50, 0x2B50),
    (0x2B55, 0x2B55), (0x2E80, 0x2E99), (0x2E9B, 0x2EF3), (0x2F00, 0x2FD5), (0x2FF0, 0x3029), (0x3030, 0x303E),
    (0x3041, 0x3096), (0x309B, 0x30FF), (0x3105, 0x312F), (0x3131, 0x3163), (0x3165, 0x318E), (0x3190, 0x31E5),
    (0x31EF, 0x321E), (0x3220, 0x3247), (0x3250, 0xA48C), (0xA490, 0xA4C6), (0xA960, 0xA97C), (0xAC00, 0xD7A3),
    (0xF900, 0xFAFF), (0xFE10, 0xFE19), (0xFE30, 0xFE52), (0xFE54, 0xFE66), (0xFE68, 0xFE6B), (0xFF01, 0xFF60),
    (0xFFE0, 0xFFE6), (0x16FE0, 0x16FE3), (0x16FF2, 0x16FF6), (0x17000, 0x18CD6), (0x18CFF, 0x18D1F),
    (0x18D80, 0x18DF2), (0x18E00, 0x191D2), (0x1AFF0, 0x1AFF3), (0x1AFF5, 0x1AFFB), (0x1AFFD, 0x1AFFE),
    (0x1B000, 0x1B123), (0x1B132, 0x1B132), (0x1B150, 0x1B152), (0x1B155, 0x1B155), (0x1B164, 0x1B168),
    (0x1B170, 0x1B2FB), (0x1D300, 0x1D356), (0x1D360, 0x1D376), (0x1F004, 0x1F004), (0x1F0CF, 0x1F0CF),
    (0x1F18E, 0x1F18E), (0x1F191, 0x1F19A), (0x1F1AE, 0x1F1AE), (0x1F200, 0x1F202), (0x1F210, 0x1F23B),
    (0x1F240, 0x1F248), (0x1F250, 0x1F251), (0x1F260, 0x1F265), (0x1F300, 0x1F320), (0x1F32D, 0x1F335),
    (0x1F337, 0x1F37C), (0x1F37E, 0x1F393), (0x1F3A0, 0x1F3CA), (0x1F3CF, 0x1F3D3), (0x1F3E0, 0x1F3F0),
    (0x1F3F4, 0x1F3F4), (0x1F3F8, 0x1F43E), (0x1F440, 0x1F440), (0x1F442, 0x1F4FC), (0x1F4FF, 0x1F53D),
    (0x1F54B, 0x1F54E), (0x1F550, 0x1F567), (0x1F57A, 0x1F57A), (0x1F595, 0x1F596), (0x1F5A4, 0x1F5A4),
    (0x1F5FB, 0x1F64F), (0x1F680, 0x1F6C5), (0x1F6CC, 0x1F6CC), (0x1F6D0, 0x1F6D2), (0x1F6D5, 0x1F6D9),
    (0x1F6DC, 0x1F6DF), (0x1F6EB, 0x1F6EC), (0x1F6F4, 0x1F6FC), (0x1F7DA, 0x1F7DA), (0x1F7E0, 0x1F7EB),
    (0x1F7F0, 0x1F7F0), (0x1F90C, 0x1F93A), (0x1F93C, 0x1F945), (0x1F947, 0x1F9FF), (0x1FA70, 0x1FA7C),
    (0x1FA80, 0x1FA8C), (0x1FA8E, 0x1FAC6), (0x1FAC8, 0x1FAC8), (0x1FACC, 0x1FADD), (0x1FADF, 0x1FAEB),
    (0x1FAEF, 0x1FAFA), (0x20000, 0x2FFFD), (0x30000, 0x3FFFD)]

/-- The code points that take no column although they extend no character: those that may be ignored in displays, vowels
and final consonants of Hangul syllables, and signs that are written over or in front of the letters behind them. -/
def noWidthRanges : List (Nat × Nat) :=
  [(0xAD, 0xAD), (0x605, 0x605), (0x61C, 0x61C), (0x70F, 0x70F), (0x890, 0x891), (0x8E2, 0x8E2), (0xD4E, 0xD4E),
    (0x1160, 0x11FF), (0x180E, 0x180E), (0x200B, 0x200B), (0x200D, 0x200F), (0x202A, 0x202E), (0x2060, 0x206F),
    (0x3164, 0x3164), (0xA8FA, 0xA8FA), (0xD7B0, 0xD7C6), (0xD7CB, 0xD7FB), (0xFEFF, 0xFEFF), (0xFFA0, 0xFFA0),
    (0xFFF0, 0xFFF8), (0x111C2, 0x111C3), (0x113D1, 0x113D1), (0x1193F, 0x1193F), (0x11941, 0x11941),
    (0x11A84, 0x11A89), (0x11D46, 0x11D46), (0x11F02, 0x11F02), (0x1BCA0, 0x1BCA3), (0x1D173, 0x1D17A),
    (0xE0000, 0xE001F), (0xE0080, 0xE00FF), (0xE01F0, 0xE0FFF)]

/-- Whether a character takes no column of its own. The joiner of Tifinagh consonants does, unless it joins. -/
def hasNoWidth (c : Char) : Bool :=
  0xAD ≤ c.toNat && (inRanges noWidthRanges c.toNat || (isGraphemeExtend c && c != '\u2D7F'))

/-- The number of columns of a character. Two Khmer signs stand for more than one letter. -/
def charWidth (c : Char) : Nat :=
  if c.toNat < 0xAD then 1
  else if c == '\u17A4' then 2
  else if c == '\u17D8' then 3
  else if hasNoWidth c then 0
  else if inRanges wideRanges c.toNat then 2
  else 1

/-- The code points whose width was another one in Unicode 15.1, with the width that they had. -/
def earlierWidths : List (Nat × Nat × Nat) :=
  [(0x5C8, 0x5C8, 1), (0x897, 0x897, 1), (0xB53, 0xB54, 1), (0x1715, 0x1715, 1), (0x1734, 0x1734, 1),
    (0x1ACF, 0x1AEC, 1), (0x1B44, 0x1B44, 1), (0x1BAA, 0x1BAA, 1), (0x1BF2, 0x1BF3, 1), (0x2630, 0x2637, 1),
    (0x268A, 0x268F, 1), (0x31E4, 0x31E5, 1), (0x4DC0, 0x4DFF, 1), (0xA953, 0xA953, 1), (0xA9C0, 0xA9C0, 1),
    (0xFF9E, 0xFF9F, 0), (0x10D69, 0x10D6D, 1), (0x10ECB, 0x10ECF, 1), (0x10EF0, 0x10EFC, 1), (0x111C0, 0x111C0, 1),
    (0x11235, 0x11235, 1), (0x1134D, 0x1134D, 1), (0x113B8, 0x113B8, 1), (0x113BB, 0x113C0, 1), (0x113C2, 0x113C2, 1),
    (0x113C5, 0x113C5, 1), (0x113C7, 0x113C9, 1), (0x113CE, 0x113D2, 1), (0x113E1, 0x113E2, 1), (0x116B6, 0x116B6, 1),
    (0x1171E, 0x1171E, 0), (0x1193D, 0x1193D, 1), (0x11A3A, 0x11A3A, 0), (0x11B60, 0x11B60, 1), (0x11B62, 0x11B64, 1),
    (0x11B66, 0x11B66, 1), (0x11DF0, 0x11DF0, 1), (0x11F41, 0x11F41, 1), (0x11F5A, 0x11F5A, 1), (0x1611E, 0x16129, 1),
    (0x1612D, 0x1612F, 1), (0x16FF0, 0x16FF1, 2), (0x16FF2, 0x16FF6, 1), (0x187F8, 0x187FF, 1), (0x18CD6, 0x18CD6, 1),
    (0x18CFF, 0x18CFF, 1), (0x18D09, 0x18D1F, 1), (0x18D80, 0x18DF2, 1), (0x18E00, 0x191D2, 1), (0x1B123, 0x1B123, 1),
    (0x1B168, 0x1B168, 1), (0x1D127, 0x1D128, 1), (0x1D166, 0x1D166, 1), (0x1D16D, 0x1D16D, 1), (0x1D250, 0x1D25F, 1),
    (0x1D280, 0x1D280, 1), (0x1D300, 0x1D356, 1), (0x1D360, 0x1D376, 1), (0x1E5EE, 0x1E5EF, 1), (0x1E6E3, 0x1E6E3, 1),
    (0x1E6E6, 0x1E6E6, 1), (0x1E6EE, 0x1E6EF, 1), (0x1E6F5, 0x1E6F5, 1), (0x1F1AE, 0x1F1AE, 1), (0x1F6D8, 0x1F6D9, 1),
    (0x1F7DA, 0x1F7DA, 1), (0x1FA89, 0x1FA8C, 1), (0x1FA8E, 0x1FA8F, 1), (0x1FABE, 0x1FABE, 1), (0x1FAC6, 0x1FAC6, 1),
    (0x1FAC8, 0x1FAC8, 1), (0x1FACC, 0x1FACD, 1), (0x1FADC, 0x1FADD, 1), (0x1FADF, 0x1FADF, 1), (0x1FAE9, 0x1FAEB, 1),
    (0x1FAEF, 0x1FAEF, 1), (0x1FAF9, 0x1FAFA, 1)]

/-- The number of columns of a character in Unicode 15.1. -/
def earlierWidth (c : Char) : Nat :=
  match earlierWidths.find? fun r => r.1 ≤ c.toNat && c.toNat ≤ r.2.1 with
  | some r => r.2.2
  | none => charWidth c

end Dimensional
