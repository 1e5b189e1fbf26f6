import QueryStubs.TypeTable
import QueryStubs.Stub.Palette

/-!
# How stubs are written

The choices that shape stubs: which types there are, how type arguments are bracketed, what stands for a body, how far stubs are
indented, what the container of functions without a prefix is called, and whether there are colours.
-/

namespace QueryStubs

/-- How type arguments are bracketed. -/
inductive Brackets where
  | angle | square
  deriving DecidableEq, Repr

/-- A type applied to another. -/
def Brackets.wrap (b : Brackets) (outer inner : String) : String :=
  match b with
  | angle => outer ++ "<" ++ inner ++ ">"
  | square => outer ++ "[" ++ inner ++ "]"

/-- The choices that shape stubs. -/
structure Config where
  types : TypeTable := .standard
  brackets : Brackets := .angle
  /-- What stands for the body of a stub. -/
  placeholder : String := "???"
  indent : String := "  "
  /-- The container of functions without a prefix. -/
  defaultObject : String := "Main"
  palette : Palette := .off

end QueryStubs
