import QueryStubs.Text.Style

/-!
# Colours of stubs

Names of containers and functions are blue, types are green, keywords and punctuation are dim. Without colours every sequence that
would switch one on or off is empty.
-/

namespace QueryStubs

/-- The sequences that switch styles on, and the one that switches them off. -/
structure Palette where
  blue : String
  green : String
  dim : String
  reset : String
  deriving DecidableEq, Repr

namespace Palette

/-- With colours. -/
def on : Palette where
  blue := Text.style "34"
  green := Text.style "32"
  dim := Text.style "2"
  reset := Text.style "0"

/-- Without colours. -/
def off : Palette := ⟨"", "", "", ""⟩

/-- With colours if they are wanted. -/
def ofFlag (colored : Bool) : Palette := if colored then on else off

/-- A text in blue. -/
def inBlue (p : Palette) (s : String) : String := p.blue ++ s ++ p.reset

/-- A text in green. -/
def inGreen (p : Palette) (s : String) : String := p.green ++ s ++ p.reset

/-- A dim text. -/
def dimmed (p : Palette) (s : String) : String := p.dim ++ s ++ p.reset

end Palette

end QueryStubs
