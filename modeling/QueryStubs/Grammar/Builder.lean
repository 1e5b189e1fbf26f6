import QueryStubs.Tree

/-!
# Putting a tree together

A tree is put together from its front to its end: a node is started, gets its parts, and is finished. Trivia wait in a buffer once they were
looked past, and are written in front of whatever comes next, a token or a node that starts. So trivia stand before a node if they were
looked past when it starts, and in it if they were not.

Nodes have to be finished in the reverse of the order in which they were started. A `Builder` keeps those that are open, and it has a tree to
give only once none is (`Builder.tree?`).
-/

namespace QueryStubs.Grammar

/-- What could be wrong with the grammar itself, whatever the source. -/
inductive Defect where
  /-- The reader looks ahead on and on and takes nothing. -/
  | stuck
  /-- A lexeme is taken where none is left. -/
  | pastEnd
  /-- A construct starts at a lexeme of another kind than it must. -/
  | unexpectedKind
  /-- A string literal lacks the mark that ends it. -/
  | openLiteral
  /-- A range ends before it starts. -/
  | reversedSpan
  /-- A node is finished where none is open. -/
  | unopened
  /-- It is asked what comes next, or whether anything does, with trivia in the way. -/
  | unseen
  /-- In the end there is not one tree, with every node in it finished. -/
  | unbalanced
  deriving DecidableEq, Repr

/-- A tree that is being put together. -/
structure Builder where
  /-- The nodes that were started and not yet finished, innermost first, each with what stands before it in the node around it. -/
  opened : List (NodeKind × List Tree) := []
  /-- What was written in the innermost of these nodes, in order. -/
  written : List Tree := []
  /-- The trivia that were looked past and not yet written. -/
  buffer : List Token := []
  /-- Whether the trivia in front of the next lexeme were looked past. -/
  looked : Bool := false
  /-- What was found wrong with how the tree is put together. -/
  defects : List Defect := []
  deriving Repr

namespace Builder

/-- Looks past the trivia that come next, unless they were looked past already. -/
def look (trivia : List Token) (b : Builder) : Builder :=
  if b.looked then b else { b with buffer := b.buffer ++ trivia, looked := true }

/-- Writes the trivia in the buffer. -/
def drain (b : Builder) : Builder := { b with written := b.written ++ b.buffer.map .leaf, buffer := [] }

/-- Writes a token behind the trivia in front of it. The trivia behind it were not looked past yet. -/
def write (trivia : List Token) (token : Token) (b : Builder) : Builder :=
  let drained := (b.look trivia).drain
  { drained with written := drained.written ++ [.leaf token], looked := false }

/-- Starts a node behind the trivia in the buffer. -/
def start (kind : NodeKind) (b : Builder) : Builder :=
  { b.drain with opened := (kind, b.drain.written) :: b.opened, written := [] }

/-- Finishes the innermost open node. -/
def finish (b : Builder) : Builder :=
  match b.opened with
  | [] => { b with defects := b.defects ++ [.unopened] }
  | (kind, before) :: opened => { b with opened, written := before ++ [.node kind b.written] }

/-- Records trivia that are in the way unless a condition holds. -/
def demandSeen (condition : Bool) (b : Builder) : Builder :=
  if condition then b else { b with defects := b.defects ++ [.unseen] }

/-- The tree, once every node of it is finished. -/
def tree? (b : Builder) : Option Tree :=
  match b.opened, b.drain.written with
  | [], [tree] => some tree
  | _, _ => none

end Builder

end QueryStubs.Grammar
