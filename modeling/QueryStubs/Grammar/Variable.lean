import QueryStubs.Grammar.SequenceType

/-!
# Variable and option declarations

A variable has a name, perhaps a type, and a value, the keyword `external`, or both. The value is everything up to the semicolon
that stands outside all brackets; it is not looked into but for brackets, and any closing bracket closes the innermost open one,
whatever their shapes. An option has a name and a string literal.
-/

namespace QueryStubs.Grammar

open QueryStubs

/-- The brackets that are open in a value, innermost first, and whether nothing was taken yet. -/
structure OpenBrackets where
  stack : List (TokenKind × Span) := []
  isEmpty : Bool := true
  deriving Repr

/-- The open brackets after a lexeme of a value. -/
def OpenBrackets.after (b : OpenBrackets) (kind : TokenKind) (span : Span) : OpenBrackets :=
  if kind.isOpening then ⟨(kind, span) :: b.stack, false⟩
  else if kind.isClosing then ⟨b.stack.tail, false⟩
  else ⟨b.stack, false⟩

/-- Takes one lexeme of a value. Outside all brackets a semicolon or a closing bracket ends the value. -/
def valueStep (b : OpenBrackets) : Rule (Bool × OpenBrackets) := do
  match ← nextKind with
  | none => return (false, b)
  | some kind =>
    if b.stack.isEmpty && (kind = .semicolon || kind.isClosing) then
      return (false, b)
    else
      let span ← nextSpan
      take
      return (true, b.after kind span)

/-- Says whether a value is complete, and reports what it lacks: the bracket that closes the innermost open one, or any lexeme. -/
def closeValue (b : OpenBrackets) : Rule Bool := do
  match b.stack with
  | (kind, opening) :: _ =>
    reportUnclosed (if kind = .braceOpen then .unclosedBody else .unclosedParens) "opened here" opening
    return false
  | [] =>
    if b.isEmpty then
      report .expectedToken "an expression after `:=`"
      return false
    else
      return true

/-- A value, whose mark `:=` comes next. -/
def varValue : Rule Bool :=
  node .varValue do
    take
    closeValue (← repeatRule valueStep {})

/-- What follows the name and the type of a variable. -/
def varTail : Rule Bool := do
  if ← sees .colonEquals then
    varValue
  else if ← seesWord "external" then
    takeKeyword
    if ← sees .colonEquals then
      varValue
    else
      return true
  else
    reportNext .expectedVarValue none
    return false

/-- What follows the dollar sign of a variable. -/
def varName : Rule Bool := do
  if ← expectQName "variable name" then
    if ← optionalType then
      varTail
    else
      return false
  else
    return false

/-- A variable declaration without its semicolon; its two keywords come next. -/
def varDecl : Rule Bool := do
  takeKeywords 2
  if ← accept .dollar then
    varName
  else
    report .expectedVariable "`$` before variable name"
    return false

/-- An option declaration without its semicolon; its two keywords come next. -/
def optionDecl : Rule Bool := do
  takeKeywords 2
  if ← expectQName "option name" then
    stringLiteral "option value"
  else
    return false

end QueryStubs.Grammar
