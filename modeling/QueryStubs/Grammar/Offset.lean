import QueryStubs.Grammar.Module

/-!
# Offsets of 32 bits

`Parsed.ofSource` counts bytes without a bound. Where an offset is held in 32 bits it starts over at 0 from 2³² on. Then a range can end
before it starts or start inside a character, which nothing can be read at, and the text at the range of a token need not be the token's.
`Parsed.wrapped?` reads a source in this way: it scans the source, keeps of each token its kind and its range in 32 bits, and takes the text
of a token from the source at that range.

A source is `Addressable` if it is shorter than 2³² bytes. Such a source is read alike in both ways, and all that is proved about its
places holds of 32-bit offsets.
-/

namespace QueryStubs

/-- A source all of whose places can be told apart by offsets of 32 bits. -/
def Addressable (source : String) : Prop := source.utf8ByteSize < UInt32.size

instance (source : String) : Decidable (Addressable source) := inferInstanceAs (Decidable (source.utf8ByteSize < UInt32.size))

/-- An offset as 32 bits hold it. -/
def wrap (offset : Nat) : Nat := (UInt32.ofNat offset).toNat

/-- A range as 32 bits hold it, unless it ends before it starts then. -/
def Span.wrapped? (s : Span) : Option Span :=
  if wrap s.start ≤ wrap s.stop then some ⟨wrap s.start, wrap s.stop⟩ else none

/-- What a source has at a range, unless an end of the range is no place between two characters of it. -/
def Span.read? (source : String) (s : Span) : Option String :=
  if String.Pos.Raw.isValid source ⟨s.start⟩ && String.Pos.Raw.isValid source ⟨s.stop⟩ then
    some (String.Pos.Raw.extract source ⟨s.start⟩ ⟨s.stop⟩)
  else
    none

namespace Token

/-- Tokens from an offset on, each with its range. -/
def placed : Nat → List Token → List (Token × Span)
  | _, [] => []
  | offset, t :: ts => (t, ⟨offset, offset + t.size⟩) :: placed (offset + t.size) ts

/-- The same in 32 bits: the text of each token is what the source has at its range. -/
def wrappedFrom? (source : String) : Nat → List Token → Option (List (Token × Span))
  | _, [] => some []
  | offset, t :: ts => do
    let span ← Span.wrapped? ⟨offset, offset + t.size⟩
    let text ← span.read? source
    return (⟨t.kind, text⟩, span) :: (← wrappedFrom? source (offset + t.size) ts)

/-- The tokens of a source with their ranges in 32 bits. -/
def wrapped? (source : String) : Option (List (Token × Span)) := wrappedFrom? source 0 (ofSource source)

end Token

/-- Cuts tokens with their ranges into lexemes, of which the first has `lead` in front of what is cut, and the trivia after the last. -/
def Lexeme.ofPlaced : List Token → List (Token × Span) → List Lexeme × List Token
  | lead, [] => ([], lead)
  | lead, (t, span) :: ts =>
    if t.isTrivia then ofPlaced (lead ++ [t]) ts
    else
      let (lexemes, tail) := ofPlaced [] ts
      (⟨lead, t, span⟩ :: lexemes, tail)

/-- The cursor before anything of a source is read, with offsets of 32 bits. -/
def Grammar.Cursor.wrapped? (source : String) : Option Cursor := do
  let (ahead, tail) := Lexeme.ofPlaced [] (← Token.wrapped? source)
  return { ahead, tail, limit := wrap source.utf8ByteSize }

/-- Reads a source with offsets of 32 bits. -/
def Parsed.wrapped? (source : String) : Option Parsed := do
  return ofCursor (Grammar.wholeModule (← Grammar.Cursor.wrapped? source)).2

end QueryStubs
