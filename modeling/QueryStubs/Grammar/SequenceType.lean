import QueryStubs.Grammar.Name

/-!
# Sequence types

A sequence type is an item type and perhaps one of the marks `?`, `*` and `+`. An item type is the name of an atomic type,
`item()`, or a kind test, whose parentheses are balanced and otherwise not looked into; `empty-sequence()` stands alone. Which of
them comes next is decided by the name and by whether an opening parenthesis follows it; a name that a colon touches is always
an atomic type.
-/

namespace QueryStubs.Grammar

open QueryStubs

/-- The names of the kind tests. -/
def kindTestNames : List String :=
  ["node", "text", "comment", "processing-instruction", "element", "attribute", "document-node", "schema-element",
    "schema-attribute"]

/-- Takes one lexeme of a run between two brackets, of which `depth` are open. At the end of the source it reports the outermost
one, which stands at `opening`. -/
def balancedStep (openKind closeKind : TokenKind) (unclosed : DiagnosticKind) (note : String) (opening : Span) (depth : Nat) :
    Rule (Bool × Nat) := do
  let kind ← nextKind
  if ← atEnd then
    reportUnclosed unclosed note opening
    return (false, depth)
  else
    take
    if kind = some openKind then
      return (true, depth + 1)
    else if kind = some closeKind then
      return (1 < depth, depth - 1)
    else
      return (true, depth)

/-- A run of lexemes from an opening bracket, which comes next, to the bracket that closes it. Says whether it was closed. -/
def balanced (openKind closeKind : TokenKind) (unclosed : DiagnosticKind) (note : String) : Rule Bool := do
  let opening ← nextSpan
  take
  let depth ← repeatRule (balancedStep openKind closeKind unclosed note opening) 1
  return depth = 0

/-- One of the marks that can follow an item type, if one comes next. -/
def occurrenceMark : Rule Unit := do
  let kind ← nextKind
  if kind.any TokenKind.isOccurrence then
    node .occurrence take

/-- A keyword, which comes next, and an empty pair of parentheses. -/
def emptyParens (kind : NodeKind) : Rule Bool :=
  node kind do
    takeKeyword
    demand (← sees .parenOpen) .unexpectedKind
    take
    expect .parenClose "`)`"

/-- A kind test, whose keyword comes next. -/
def kindTest : Rule Bool :=
  node .kindTest do
    takeKeyword
    balanced .parenOpen .parenClose .unclosedParens "kind test opened here"

/-- An item type that `name ( ` starts, with the mark after it. -/
def testType (name : String) : Rule Bool := do
  if name = "empty-sequence" then
    emptyParens .emptySequence
  else if name = "item" then
    if ← emptyParens .anyItem then
      occurrenceMark
      return true
    else
      return false
  else if kindTestNames.contains name then
    if ← kindTest then
      occurrenceMark
      return true
    else
      return false
  else
    report .unknownKindTest name
    return false

/-- The name of an atomic type, which comes next, with the mark after it. -/
def atomicType : Rule Bool := do
  node .atomicType qname
  occurrenceMark
  return true

/-- An item type with the mark after it. -/
def itemType : Rule Bool := do
  if ← sees .name then
    let name ← nextText
    if ← seesTouching 1 .colon then
      atomicType
    else if ← seesAt 1 .parenOpen then
      testType name
    else
      atomicType
  else
    report .expectedSequenceType "a sequence type"
    return false

/-- A sequence type. Trivia between the keyword `as` and the type belong to its node. -/
def sequenceType : Rule Bool := nodeWithLead .sequenceType itemType

/-- A type declaration, whose keyword `as` comes next. -/
def typeDecl : Rule Bool :=
  node .typeDecl do
    takeKeyword
    sequenceType

/-- A type declaration if the keyword `as` comes next. -/
def optionalType : Rule Bool := do
  if ← seesWord "as" then
    typeDecl
  else
    return true

end QueryStubs.Grammar
