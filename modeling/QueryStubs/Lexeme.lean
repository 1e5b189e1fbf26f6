import QueryStubs.Text.Span
import QueryStubs.Token.Scan

/-!
# Lexemes: the tokens the grammar sees

The grammar is about tokens that are not trivia. A lexeme is such a token together with the trivia in front of it and with its
place in the source. Trivia matter in one way only: two lexemes *touch* when nothing stands between them, and a colon belongs to
a qualified name only if it touches the names beside it.

Main statement: `Lexeme.tokens_split`, a list of tokens is cut into lexemes without loss.
-/

namespace QueryStubs

/-- A token that is not trivia, with the trivia in front of it and its place. -/
structure Lexeme where
  lead : List Token
  token : Token
  span : Span
  deriving DecidableEq, Repr

namespace Lexeme

/-- The kind of the token. -/
def kind (l : Lexeme) : TokenKind := l.token.kind

/-- Whether the lexeme is a name spelled `word`. -/
def isWord (word : String) (l : Lexeme) : Bool := l.token.isWord word

/-- Whether nothing stands between this lexeme and the one before it. -/
def touches (l : Lexeme) : Bool := l.lead.isEmpty

/-- All tokens of a lexeme, those in front first. -/
def tokens (l : Lexeme) : List Token := l.lead ++ [l.token]

/-- Cuts a list of tokens that starts at a byte offset into lexemes, of which the first has `lead` in front of what is cut off,
and the trivia after the last. Offsets do not wrap around; `Lexeme.ofPlaced` cuts tokens whose ranges did. -/
def split : Nat → List Token → List Token → List Lexeme × List Token
  | _, lead, [] => ([], lead)
  | offset, lead, t :: ts =>
    if t.isTrivia then split (offset + t.size) (lead ++ [t]) ts
    else
      let (lexemes, tail) := split (offset + t.size) [] ts
      (⟨lead, t, ⟨offset, offset + t.size⟩⟩ :: lexemes, tail)

/-- The lexemes of a list of tokens and the trivia after the last of them. -/
def ofTokens (ts : List Token) : List Lexeme × List Token := split 0 [] ts

/-- Every token is in exactly one lexeme or in the trivia after the last, and their order is kept. -/
theorem tokens_split (offset : Nat) (lead ts : List Token) :
    (split offset lead ts).1.flatMap tokens ++ (split offset lead ts).2 = lead ++ ts := by
  fun_induction split offset lead ts with
  | case1 => simp
  | case2 _ _ _ _ _ ih => simpa using ih
  | case3 _ _ _ _ _ _ _ h ih =>
    rw [h] at ih
    simpa [tokens] using ih

end Lexeme

end QueryStubs
