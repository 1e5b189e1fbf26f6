import QueryStubs.Grammar.SequenceType

/-!
# Function declarations

`declare function`, a name, a list of parameters in parentheses, perhaps the type of the result, and either a body in braces or
the keyword `external`. The inside of a body is not looked into but for its braces.

In a library module a function belongs to the namespace of the module. One that does not is reported at the first lexeme of its
name, before the name is read, and is otherwise read as any other.
-/

namespace QueryStubs.Grammar

open QueryStubs

/-- The prefix of the qualified name that comes next, if it has one. -/
def upcomingPrefix : Rule (Option String) := do
  if ← seesTouching 1 .colon then
    if ← seesTouching 2 .name then
      return some (← nextText)
    else
      return none
  else
    return none

/-- Reports the function whose name comes next if its prefix is not the one of the library module. -/
def checkNamespace : Rule Unit := do
  if ← sees .name then
    let span ← nextSpan
    let found ← upcomingPrefix
    let bound := (← get).modulePrefix
    if bound.isSome && found ≠ bound then
      reportAt .functionOutsideModuleNamespace span found []

/-- A parameter, whose dollar sign comes next. -/
def param : Rule Bool :=
  node .param do
    take
    if ← expectQName "parameter name" then
      optionalType
    else
      return false

/-- One parameter and the comma after it. Goes on if there was a comma; otherwise says whether the parameter was complete. -/
def paramStep (_ : Bool) : Rule (Bool × Bool) := do
  if ← sees .dollar then
    if ← param then
      return (← accept .comma, true)
    else
      return (false, false)
  else
    report .expectedVariable "parameter `$name`"
    return (false, false)

/-- The parenthesis that closes a list of parameters, which was opened at `opening`. -/
def closeParams (opening : Span) : Rule Bool := do
  if ← accept .parenClose then
    return true
  else if ← atEnd then
    reportUnclosed .unclosedParamList "parameter list opened here" opening
    return false
  else
    report .expectedToken "`,` or `)` after parameter"
    return false

/-- A list of parameters, whose parenthesis comes next. -/
def paramList : Rule Bool :=
  node .paramList do
    let opening ← nextSpan
    take
    if ← sees .parenClose then
      closeParams opening
    else if ← repeatRule paramStep true then
      closeParams opening
    else
      return false

/-- A body in braces, whose opening brace comes next. -/
def enclosedBody : Rule Bool :=
  node .enclosedBody (balanced .braceOpen .braceClose .unclosedBody "function body opened here")

/-- The body of a function. -/
def functionBody : Rule Bool := do
  if ← sees .braceOpen then
    enclosedBody
  else if ← seesWord "external" then
    node .externalBody takeKeyword
    return true
  else
    reportNext .expectedFunctionBody none
    return false

/-- What follows the name of a function. -/
def functionTail : Rule Bool := do
  if ← sees .parenOpen then
    if ← paramList then
      if ← optionalType then
        functionBody
      else
        return false
    else
      return false
  else
    report .expectedToken "`(` after function name"
    return false

/-- A function declaration without its semicolon; its two keywords come next. -/
def functionDecl : Rule Bool := do
  takeKeywords 2
  checkNamespace
  if ← expectQName "function name" then
    functionTail
  else
    return false

end QueryStubs.Grammar
