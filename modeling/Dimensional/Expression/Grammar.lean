import Dimensional.Expression.Term
import Dimensional.Expression.TokenStream

/-!
# The grammar of unit expressions

    units    = terms? ("/" terms?)?
    terms    = term ("*"? term)*
    term     = name exponent? | "1"
    exponent = "^" "-"? digits | "⁻"? superscript digits

The rules read a token stream and never give up. A missing token is reported and replaced by a plain value, and a token
that cannot start a term is reported and taken as a term of its own, so one pass finds all problems of a source.
-/

namespace Dimensional

variable {γ δ : Type} [Reporting γ δ] {context : γ}

namespace Grammar

/-! ### Exponents -/

/-- The exponent written as a sign and a magnitude. Magnitudes above the range count as its end; a missing one as 1. -/
def signed (negative : Bool) (magnitude : Option Nat) : Exponent :=
  match magnitude with
  | none => 1
  | some n =>
    let value := Exponent.ofInt n
    if negative then -value else value

/-- The value of a digit run. -/
def natural? : Lexeme → Option Nat
  | .natural n => some n
  | _ => none

/-- The value of a superscript digit run. -/
def superscript? : Lexeme → Option Nat
  | .superscript n => some n
  | _ => none

/-- A sign and a magnitude: `"-"? digits`. -/
def integer (s : TokenStream context) : Exponent × TokenStream context :=
  let sign := s.skip .minus
  let magnitude := sign.2.expect .numberRequired natural?
  (signed sign.1 magnitude.1, magnitude.2)

/-- A sign and a magnitude in superscripts: `"⁻"? superscript digits`. -/
def superscriptInteger (s : TokenStream context) : Exponent × TokenStream context :=
  let sign := s.skip .superscriptMinus
  let magnitude := sign.2.expect .numberRequired superscript?
  (signed sign.1 magnitude.1, magnitude.2)

/-- The exponent after a name. In `m-2` the caret was left out: it is reported, and the integer read. -/
def exponent (name : Span) (s : TokenStream context) : Exponent × TokenStream context :=
  match s.peekLexeme? with
  | some .caret => integer s.advance
  | some .superscriptMinus => superscriptInteger s
  | some (.superscript _) => superscriptInteger s
  | some .minus => integer (s.report .exponentSymbolRequired (Span.insertion name.stop) .none)
  | _ => (1, s)

/-! ### Terms -/

/-- What ends a list of terms without being a fault. -/
inductive Stop where
  | slash
  | never
deriving DecidableEq

/-- Whether a lexeme ends the list of terms. -/
def Stop.isAt (stop : Stop) (lexeme : Lexeme) : Bool :=
  stop == .slash && lexeme == .slash

/-- The number 1 written with one digit. -/
def isOne (t : Token) : Bool :=
  t.lexeme == .natural 1 && t.span.length == 1

/-- One term. The number 1 has no terms; a token that is neither a name nor 1 is reported and stands in brackets. -/
def term (stop : Stop) (s : TokenStream context) : Expression × TokenStream context :=
  match s.peek? with
  | none => ([], s.reportMissing .unitNameRequired)
  | some t =>
    if stop.isAt t.lexeme then ([], s.reportMissing .unitNameRequired)
    else
      match t.lexeme with
      | .name text =>
        let e := exponent t.span s.advance
        ([⟨text, e.1, t.span⟩], e.2)
      | _ =>
        if isOne t then ([], s.advance)
        else
          ([⟨"(" ++ t.surface ++ ")", 1, t.span⟩],
            s.advance.report .unexpectedToken t.span (.token t.surface))

/-- Whether a token can start a term without a star in front of it. -/
def startsTerm (t : Token) : Bool :=
  match t.lexeme with
  | .name _ => true
  | _ => isOne t

theorem length_remaining_integer_le (s : TokenStream context) : (integer s).2.remaining.length ≤ s.remaining.length :=
  Nat.le_trans (TokenStream.length_remaining_expect_le _ _ _) (TokenStream.length_remaining_skip_le _ _)

theorem length_remaining_superscriptInteger_le (s : TokenStream context) :
    (superscriptInteger s).2.remaining.length ≤ s.remaining.length :=
  Nat.le_trans (TokenStream.length_remaining_expect_le _ _ _) (TokenStream.length_remaining_skip_le _ _)

theorem length_remaining_exponent_le (name : Span) (s : TokenStream context) :
    (exponent name s).2.remaining.length ≤ s.remaining.length := by
  unfold exponent
  split
  · exact Nat.le_trans (length_remaining_integer_le _) (TokenStream.length_remaining_advance_le s)
  · exact length_remaining_superscriptInteger_le s
  · exact length_remaining_superscriptInteger_le s
  · exact length_remaining_integer_le _
  · exact Nat.le_refl _

theorem length_remaining_term_le (stop : Stop) (s : TokenStream context) :
    (term stop s).2.remaining.length ≤ s.remaining.length := by
  unfold term
  split
  · exact Nat.le_refl _
  · split
    · exact Nat.le_refl _
    · split
      · exact Nat.le_trans (length_remaining_exponent_le _ _) (TokenStream.length_remaining_advance_le s)
      · split <;> exact TokenStream.length_remaining_advance_le s

/-- A term that starts with a name or 1 consumes a token. -/
theorem length_remaining_term_lt {stop : Stop} {s : TokenStream context} {t : Token} (h : s.peek? = some t)
    (hs : startsTerm t = true) : (term stop s).2.remaining.length < s.remaining.length := by
  have hn : stop.isAt t.lexeme = false := by
    cases stop <;> cases hl : t.lexeme <;> simp_all [startsTerm, isOne, Stop.isAt]
  have ha := TokenStream.length_remaining_advance_lt h
  simp only [term, h, hn]
  split
  · next h' => cases h'
  · split
    · exact Nat.lt_of_le_of_lt (length_remaining_exponent_le _ _) ha
    · split <;> exact ha

/-- The terms after the first one, up to a token that neither starts nor joins a term. -/
def tailTerms (stop : Stop) (s : TokenStream context) : Expression × TokenStream context :=
  match _h : s.peek? with
  | none => ([], s)
  | some t =>
    if stop.isAt t.lexeme then ([], s)
    else if t.lexeme = .star then
      let first := term stop s.advance
      let rest := tailTerms stop first.2
      (first.1 ++ rest.1, rest.2)
    else if _hs : startsTerm t then
      let first := term stop s
      let rest := tailTerms stop first.2
      (first.1 ++ rest.1, rest.2)
    else ([], s)
termination_by s.remaining.length
decreasing_by
  · exact Nat.lt_of_le_of_lt (length_remaining_term_le _ _) (TokenStream.length_remaining_advance_lt _h)
  · exact length_remaining_term_lt _h _hs

/-- One or more terms. -/
def terms (stop : Stop) (s : TokenStream context) : Expression × TokenStream context :=
  let first := term stop s
  let rest := tailTerms stop first.2
  (first.1 ++ rest.1, rest.2)

/-! ### Whole expressions -/

/-- The terms in front of the slash. -/
def numerator (s : TokenStream context) : Expression × TokenStream context :=
  match s.peekLexeme? with
  | none => ([], s)
  | some .slash => ([], s)
  | some _ => terms .slash s

/-- The terms after the slash, not yet negated. -/
def denominator (s : TokenStream context) : Expression × TokenStream context :=
  if s.isAtEnd then ([], s) else terms .never s

/-- A numerator and, after a slash, a denominator. -/
def fraction (s : TokenStream context) : Expression × TokenStream context :=
  let above := numerator s
  let slash := above.2.skip .slash
  if slash.1 then
    let below := denominator slash.2
    (above.1 ++ Expression.reciprocal below.1, below.2)
  else above

/-- A whole expression. What is left over is reported unless something was reported before. -/
def units (s : TokenStream context) : Expression × TokenStream context :=
  let read := fraction s
  if read.2.isAtEnd || !read.2.problems.isEmpty then read
  else (read.1, read.2.reportMissing .endOfSourceRequired)

end Grammar

/-! ### Parsing -/

/-- The terms read from a source and what was reported about it. The terms are usable even if there are problems. -/
structure Parse (δ : Type) where
  expression : Expression
  problems : List δ
deriving DecidableEq, Inhabited

namespace Parse

/-- Parse a token list in a context. -/
def ofTokensIn (context : γ) (tokens : List Token) : Parse δ :=
  let read := Grammar.units (TokenStream.ofTokens context tokens)
  ⟨read.1, read.2.problems⟩

/-- Scan and parse a text in a context. -/
def ofSourceIn (context : γ) (source : String) : Parse δ :=
  ofTokensIn context (scan source)

/-- Parse a token list. -/
def ofTokens (tokens : List Token) : Parse Problem :=
  ofTokensIn () tokens

/-- Scan and parse a text. -/
def ofSource (source : String) : Parse Problem :=
  ofTokens (scan source)

end Parse
end Dimensional
