/-!
# Positions: lines and columns

A byte offset is shown to people as a line and a column, both counted from 1. Lines end at line feeds, and a column counts
characters. An offset past the end stands for the end, and an offset inside a character has the line and the column of that
character.
-/

namespace QueryStubs

/-- A place in a text: its byte offset, its line and its column. -/
structure Position where
  offset : Nat
  line : Nat
  column : Nat
  deriving DecidableEq, Repr

namespace Position

/-- The characters that end at or before a byte offset. -/
def charsBefore : Nat → List Char → List Char
  | _, [] => []
  | offset, c :: cs => if c.utf8Size ≤ offset then c :: charsBefore (offset - c.utf8Size) cs else []

/-- What ends before an offset is where the text starts. -/
theorem charsBefore_append (offset : Nat) (cs : List Char) : ∃ rest, charsBefore offset cs ++ rest = cs := by
  induction cs generalizing offset with
  | nil => exact ⟨[], rfl⟩
  | cons c cs ih =>
    unfold charsBefore
    split
    · obtain ⟨rest, h⟩ := ih (offset - c.utf8Size)
      exact ⟨rest, by rw [List.cons_append, h]⟩
    · exact ⟨c :: cs, rfl⟩

/-- The characters of the last line of a text. -/
def lastLine (cs : List Char) : List Char := (cs.reverse.takeWhile (· ≠ '\n')).reverse

/-- The position of a byte offset in a source. -/
def ofOffset (source : String) (offset : Nat) : Position :=
  let offset := min offset source.utf8ByteSize
  let before := charsBefore offset source.toList
  { offset, line := before.count '\n' + 1, column := (lastLine before).length + 1 }

/-- The written form of a position: its line and its column. -/
def text (p : Position) : String := Nat.repr p.line ++ ":" ++ Nat.repr p.column

end Position

end QueryStubs
