import QueryStubs.Lexeme

/-!
# String literals and where a reader may stand

The tokens of a string literal come together: its mark, its text if there is any, and the same mark again, with nothing between.
A reader stands *aligned* if what is ahead starts outside every literal. Only the scans that take whatever comes (of balanced
brackets, of a value, of a query body, of what is skipped) pass through the inside of literals; as no token inside a literal is one
that a scan stops at, they end aligned again (`Within.aligned`).
-/

namespace QueryStubs

/-- A kind that is neither a mark of a literal nor the text of one. -/
def TokenKind.isPlain (k : TokenKind) : Bool := !k.isQuote && k ≠ .literalText

/-- A lexeme without the trivia in front of it. -/
def Lexeme.bare (l : Lexeme) : Lexeme := { l with lead := [] }

namespace Grammar

/-- Lexemes that start outside every string literal, with all literals among them complete. -/
inductive Aligned : List Lexeme → Prop
  | nil : Aligned []
  | plain {l : Lexeme} {ls : List Lexeme} : l.kind.isPlain = true → Aligned ls → Aligned (l :: ls)
  | emptyLiteral {first last : Lexeme} {ls : List Lexeme} :
      first.kind.isQuote = true → last.kind = first.kind → last.touches = true → Aligned ls → Aligned (first :: last :: ls)
  | literal {first body last : Lexeme} {ls : List Lexeme} :
      first.kind.isQuote = true → body.kind = .literalText → body.touches = true → last.kind = first.kind →
        last.touches = true → Aligned ls → Aligned (first :: body :: last :: ls)

/-- Lexemes that may start in the middle of a string literal. -/
inductive Within : List Lexeme → Prop
  | outside {ls : List Lexeme} : Aligned ls → Within ls
  | atMark {l : Lexeme} {ls : List Lexeme} : l.kind.isQuote = true → Aligned ls → Within (l :: ls)
  | atBody {body last : Lexeme} {ls : List Lexeme} :
      body.kind = .literalText → last.kind.isQuote = true → Aligned ls → Within (body :: last :: ls)

/-- The rest of a literal, and what follows it, behind a mark of a kind. -/
def Opened (mark : TokenKind) (ls : List Lexeme) : Prop :=
  (∃ last rest, ls = last :: rest ∧ last.kind = mark ∧ last.touches = true ∧ Aligned rest) ∨
    ∃ body last rest, ls = body :: last :: rest ∧ body.kind = .literalText ∧ body.touches = true ∧ last.kind = mark ∧
      last.touches = true ∧ Aligned rest

/-- Behind the mark that starts a literal the rest of the literal comes. -/
theorem Aligned.opened {l : Lexeme} {ls : List Lexeme} (h : Aligned (l :: ls)) (hl : l.kind.isQuote = true) :
    Opened l.kind ls := by
  cases h with
  | plain hp => simp [TokenKind.isPlain, hl] at hp
  | emptyLiteral _ hk ht h => exact .inl ⟨_, _, rfl, hk, ht, h⟩
  | literal _ hb hbt hk ht h => exact .inr ⟨_, _, _, rfl, hb, hbt, hk, ht, h⟩

/-- Behind a lexeme that belongs to no literal everything is aligned. -/
theorem Aligned.tail {l : Lexeme} {ls : List Lexeme} (h : Aligned (l :: ls)) (hl : l.kind.isPlain = true) : Aligned ls := by
  cases h with
  | plain _ h => exact h
  | emptyLiteral hq | literal hq => simp [TokenKind.isPlain, hq] at hl

/-- The trivia in front of the first lexeme do not matter. -/
theorem Aligned.bare {l : Lexeme} {ls : List Lexeme} (h : Aligned (l :: ls)) : Aligned (l.bare :: ls) := by
  cases h with
  | plain hl h => exact .plain hl h
  | emptyLiteral hq hk ht h => exact .emptyLiteral hq hk ht h
  | literal hq hb hbt hk ht h => exact .literal hq hb hbt hk ht h

/-- A lexeme that belongs to no literal is never met inside one. -/
theorem Within.aligned {l : Lexeme} {ls : List Lexeme} (h : Within (l :: ls)) (hl : l.kind.isPlain = true) :
    Aligned (l :: ls) := by
  cases h with
  | outside h => exact h
  | atMark hq => simp [TokenKind.isPlain, hq] at hl
  | atBody hb => simp [TokenKind.isPlain, hb] at hl

/-- Whatever lexeme is taken, the literal it may belong to goes on. -/
theorem Within.tail {l : Lexeme} {ls : List Lexeme} (h : Within (l :: ls)) : Within ls := by
  cases h with
  | outside h =>
    cases h with
    | plain _ h => exact .outside h
    | emptyLiteral hq hk _ h => exact .atMark (hk ▸ hq) h
    | literal hq hb _ hk _ h => exact .atBody hb (hk ▸ hq) h
  | atMark _ h => exact .outside h
  | atBody _ hq h => exact .atMark hq h

/-- The trivia in front of the first lexeme do not matter. -/
theorem Within.bare {l : Lexeme} {ls : List Lexeme} (h : Within (l :: ls)) : Within (l.bare :: ls) := by
  cases h with
  | outside h => exact .outside h.bare
  | atMark hq h => exact .atMark hq h
  | atBody hb hq h => exact .atBody hb hq h

end Grammar

end QueryStubs
