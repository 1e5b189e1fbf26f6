import QueryStubs.Tree
import QueryStubs.Text.Span
import QueryStubs.Text.Quoted

/-!
# Listings of trees

A listing has one line for each node and each token of a tree, in source order and indented by depth. It can leave out trivia and
show ranges.
-/

namespace QueryStubs

/-- What a listing shows besides nodes and meaningful tokens. -/
structure ListingOptions where
  trivia : Bool := false
  spans : Bool := false
  deriving DecidableEq, Repr

/-- The range of a piece of the source as a line shows it. -/
def ListingOptions.spanText (o : ListingOptions) (start size : Nat) : String :=
  if o.spans then " [" ++ Span.text ⟨start, start + size⟩ ++ "]" else ""

/-- The indentation of a line at a depth. -/
def indentation (depth : Nat) : String := String.ofList (List.replicate (2 * depth) ' ')

namespace Tree

mutual

/-- The lines of a tree that starts at a byte offset and stands at a depth. -/
def listing (o : ListingOptions) (depth offset : Nat) : Tree → List String
  | leaf t =>
    if o.trivia || !t.isTrivia then
      [indentation depth ++ t.kind.label ++ o.spanText offset t.size ++ " " ++ Text.quoted t.text]
    else []
  | node kind ts =>
    (indentation depth ++ kind.label ++ o.spanText offset (Token.sizeOf (leavesOf ts))) :: listingOf o (depth + 1) offset ts

/-- The lines of a row of trees. -/
def listingOf (o : ListingOptions) (depth offset : Nat) : List Tree → List String
  | [] => []
  | t :: ts => listing o depth offset t ++ listingOf o depth (offset + t.size) ts

end

/-- The lines of a whole tree. -/
def lines (o : ListingOptions) (t : Tree) : List String := listing o 0 0 t

end Tree

/-- The text of some lines, each with its line end. -/
def unlines (lines : List String) : String := String.join (lines.map (· ++ "\n"))

end QueryStubs
