import QueryStubs.Grammar.Name

/-!
# Namespace declarations, imports and setters

The declarations that come first in a module. Each is read without its semicolon, and each has its leading keywords next when it
is read: they are what it was recognised by.
-/

namespace QueryStubs.Grammar

open QueryStubs

/-- Reads one thing after another as long as they are complete. -/
def inOrder : List (Rule Bool) → Rule Bool
  | [] => pure true
  | rule :: rules => do
    if ← rule then
      inOrder rules
    else
      return false

/-- A prefix and the equals sign after it. -/
def prefixBinding : Rule Bool :=
  inOrder [expectNCName "namespace prefix", expect .equals "`=` after namespace prefix"]

/-- `declare namespace p = "uri"` -/
def namespaceDecl : Rule Bool := do
  takeKeywords 2
  inOrder [prefixBinding, stringLiteral "namespace URI"]

/-- `declare boundary-space preserve` or `strip` -/
def boundarySpaceDecl : Rule Bool := do
  takeKeywords 2
  expectWordOf ["preserve", "strip"]

/-- `declare default element namespace "uri"` or `function` -/
def defaultNamespaceDecl : Rule Bool := do
  takeKeywords 3
  inOrder [expectWord "namespace", stringLiteral "namespace URI"]

/-- `declare default collation "uri"` -/
def defaultCollationDecl : Rule Bool := do
  takeKeywords 3
  stringLiteral "collation URI"

/-- `declare default order empty greatest` or `least` -/
def emptyOrderDecl : Rule Bool := do
  takeKeywords 3
  inOrder [expectWord "empty", expectWordOf ["greatest", "least"]]

/-- `declare base-uri "uri"` -/
def baseUriDecl : Rule Bool := do
  takeKeywords 2
  stringLiteral "base URI"

/-- `declare construction strip` or `preserve` -/
def constructionDecl : Rule Bool := do
  takeKeywords 2
  expectWordOf ["strip", "preserve"]

/-- `declare ordering ordered` or `unordered` -/
def orderingModeDecl : Rule Bool := do
  takeKeywords 2
  expectWordOf ["ordered", "unordered"]

/-- `declare copy-namespaces preserve, inherit` or `no-preserve`, `no-inherit` -/
def copyNamespacesDecl : Rule Bool := do
  takeKeywords 2
  inOrder [expectWordOf ["preserve", "no-preserve"], expect .comma "`,` between copy-namespaces modes",
    expectWordOf ["inherit", "no-inherit"]]

/-- One more place that an import may be found at, after a comma. -/
def locationStep (_ : Bool) : Rule (Bool × Bool) := do
  if ← accept .comma then
    if ← stringLiteral "location URI after `,`" then
      return (true, true)
    else
      return (false, false)
  else
    return (false, true)

/-- The places that an import may be found at: nothing, or `at` and string literals with commas between. -/
def locationHints : Rule Bool := do
  if ← seesWord "at" then
    takeKeyword
    if ← stringLiteral "location URI after `at`" then
      repeatRule locationStep true
    else
      return false
  else
    return true

/-- The prefix that a schema is bound to, if one is given: `namespace p =` or `default element namespace`. -/
def schemaTarget : Rule Bool := do
  if ← seesWord "namespace" then
    takeKeyword
    prefixBinding
  else if ← seesWord "default" then
    takeKeyword
    inOrder [expectWord "element", expectWord "namespace"]
  else
    return true

/-- `import schema`, perhaps with a target, a URI and places to find it. -/
def schemaImport : Rule Bool := do
  takeKeywords 2
  inOrder [schemaTarget, stringLiteral "schema URI", locationHints]

/-- The prefix that a module is bound to, if one is given: `namespace p =`. -/
def moduleTarget : Rule Bool := do
  if ← seesWord "namespace" then
    takeKeyword
    prefixBinding
  else
    return true

/-- `import module`, perhaps with a prefix, a URI and places to find it. -/
def moduleImport : Rule Bool := do
  takeKeywords 2
  inOrder [moduleTarget, stringLiteral "module URI", locationHints]

end QueryStubs.Grammar
