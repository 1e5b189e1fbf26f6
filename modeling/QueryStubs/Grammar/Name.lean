import QueryStubs.Grammar.Cursor

/-!
# Names and string literals

A qualified name is a name, or two names with a colon between them and nothing else: as soon as a blank stands beside the colon,
the first name is a whole name. Where a name without a prefix is required, a colon that touches the name is reported at the name.
-/

namespace QueryStubs.Grammar

open QueryStubs

/-- A qualified name whose first name comes next: `p:f` if a colon and a second name touch it, else `f`. -/
def qname : Rule Unit := do
  demand (← sees .name) .unexpectedKind
  node .qname do
    take
    if ← seesTouching 0 .colon then
      if ← seesTouching 1 .name then
        take
        take

/-- A qualified name where one is required. -/
def expectQName (what : String) : Rule Bool := do
  if ← sees .name then
    qname
    return true
  else
    report .expectedName what
    return false

/-- A name without a prefix where one is required. -/
def expectNCName (what : String) : Rule Bool := do
  if ← sees .name then
    if ← seesTouching 1 .colon then
      report .expectedName ("unprefixed " ++ what)
      return false
    else
      take
      return true
  else
    report .expectedName what
    return false

/-- The tokens of a string literal whose opening mark comes next. -/
def literalTokens : Rule Unit := do
  let opening ← nextKind
  take
  if ← seesTouching 0 .literalText then
    take
  let closing ← peekRaw 0
  demand (closing.any (·.touches) && closing.map (·.kind) = opening) .openLiteral
  take

/-- A string literal where one is required. -/
def stringLiteral (what : String) : Rule Bool := do
  let kind ← nextKind
  if kind.any TokenKind.isQuote then
    node .str literalTokens
    return true
  else
    report .expectedStringLiteral what
    return false

end QueryStubs.Grammar
