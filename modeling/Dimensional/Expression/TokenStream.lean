import Dimensional.Diagnostic
import Dimensional.Expression.Token

/-!
# Token streams

A token list with a position in it and the problems found so far. Reading moves tokens from the remaining to the
consumed ones, so together they stay the whole list; problems are only added.
-/

namespace Dimensional

/-- Tokens read so far (the latest one first), tokens to come, and what was reported in the context of the reading. -/
structure TokenStream {γ δ : Type} [Reporting γ δ] (context : γ) where
  consumed : List Token
  remaining : List Token
  problems : List δ
deriving DecidableEq, Inhabited

namespace TokenStream

variable {γ δ : Type} [Reporting γ δ] {context : γ}

/-- The stream in front of a token list. -/
def ofTokens (context : γ) (tokens : List Token) : TokenStream context := ⟨[], tokens, []⟩

/-- The whole token list. -/
def tokens (s : TokenStream context) : List Token :=
  s.consumed.reverse ++ s.remaining

def isAtEnd (s : TokenStream context) : Bool :=
  s.remaining.isEmpty

/-- The next token. -/
def peek? (s : TokenStream context) : Option Token :=
  s.remaining.head?

/-- What the next token says. -/
def peekLexeme? (s : TokenStream context) : Option Lexeme :=
  s.peek?.map Token.lexeme

/-- Consume the next token, if there is one. -/
def advance (s : TokenStream context) : TokenStream context :=
  match s.remaining with
  | [] => s
  | t :: rest => { s with consumed := t :: s.consumed, remaining := rest }

/-- Where a token that should come next is missing: the end of the last consumed token, or the start of the source. -/
def missingSpan (s : TokenStream context) : Span :=
  Span.insertion ((s.consumed.head?.map fun t => t.span.stop).getD 0)

/-- Report a problem. -/
def report (s : TokenStream context) (id : MessageId) (span : Span) (detail : Detail) : TokenStream context :=
  { s with problems := s.problems ++ [Reporting.report context ⟨id, span, detail⟩] }

/-- Report a problem about a token that should come next. -/
def reportMissing (s : TokenStream context) (id : MessageId) : TokenStream context :=
  s.report id s.missingSpan .none

/-- Consume the next token if it says `lexeme`, and tell whether it did. -/
def skip (s : TokenStream context) (lexeme : Lexeme) : Bool × TokenStream context :=
  if s.peekLexeme? = some lexeme then (true, s.advance) else (false, s)

/-- Consume the next token if it has the wanted value; otherwise stay in front of it and report that it is missing. -/
def expect {α : Type} (s : TokenStream context) (id : MessageId) (value? : Lexeme → Option α) :
    Option α × TokenStream context :=
  match s.peekLexeme?.bind value? with
  | some value => (some value, s.advance)
  | none => (none, s.reportMissing id)

/-! ### Lengths of what remains -/

theorem remaining_advance (s : TokenStream context) : s.advance.remaining = s.remaining.tail := by
  unfold advance
  split <;> simp_all

theorem length_remaining_advance_le (s : TokenStream context) : s.advance.remaining.length ≤ s.remaining.length := by
  rw [remaining_advance, List.length_tail]
  omega

theorem length_remaining_advance_lt {s : TokenStream context} {t : Token} (h : s.peek? = some t) :
    s.advance.remaining.length < s.remaining.length := by
  rw [remaining_advance, List.length_tail]
  have : s.remaining ≠ [] := by
    intro h'
    simp [peek?, h'] at h
  have := List.length_pos_iff.mpr this
  omega

theorem length_remaining_skip_le (s : TokenStream context) (lexeme : Lexeme) :
    (s.skip lexeme).2.remaining.length ≤ s.remaining.length := by
  unfold skip
  split
  · exact length_remaining_advance_le s
  · exact Nat.le_refl _

theorem length_remaining_expect_le {α : Type} (s : TokenStream context) (id : MessageId)
    (value? : Lexeme → Option α) : (s.expect id value?).2.remaining.length ≤ s.remaining.length := by
  unfold expect
  split
  · exact length_remaining_advance_le s
  · exact Nat.le_refl _

end TokenStream
end Dimensional
