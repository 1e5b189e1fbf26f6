import QueryStubs.Grammar.Function
import QueryStubs.Grammar.Variable
import QueryStubs.Grammar.Setter

/-!
# Modules

A module may start with a version declaration. A library module goes on with a module declaration and its prolog, a main module
with its prolog and a query body, which is everything that is left and is not looked into but for its braces.

Each declaration ends with a semicolon. One that is not complete is skipped up to its semicolon or to the start of the next
declaration, whichever comes first; so a fault in one declaration does not spoil those after it.

`Parsed.ofSource` reads a whole source and always gives a tree.
-/

namespace QueryStubs

namespace Grammar

/-- What kind of declaration comes next, if one does. The kind `error` stands for a start that no declaration has. -/
def upcomingDecl : Rule (Option NodeKind) := do
  if ← seesWord "import" then
    match ← wordAt? 1 with
    | some "schema" => return some .schemaImport
    | some "module" => return some .moduleImport
    | _ => return some .error
  else if ← seesWord "declare" then
    match ← wordAt? 1 with
    | some "namespace" => return some .namespaceDecl
    | some "boundary-space" => return some .boundarySpaceDecl
    | some "default" =>
      match ← wordAt? 2 with
      | some "element" => return some .defaultNamespaceDecl
      | some "function" => return some .defaultNamespaceDecl
      | some "collation" => return some .defaultCollationDecl
      | some "order" => return some .emptyOrderDecl
      | _ => return some .error
    | some "base-uri" => return some .baseUriDecl
    | some "construction" => return some .constructionDecl
    | some "ordering" => return some .orderingModeDecl
    | some "copy-namespaces" => return some .copyNamespacesDecl
    | some "variable" => return some .varDecl
    | some "function" => return some .functionDecl
    | some "option" => return some .optionDecl
    | _ => return some .error
  else
    return none

/-- Whether a declaration that is not complete is to be skipped no further. -/
def atRecovery : Rule Bool := do
  if ← sees .semicolon then
    return true
  else
    return (← upcomingDecl).isSome

/-- A declaration with its semicolon. Says whether the semicolon was there. -/
def declaration (kind : NodeKind) (rule : Rule Bool) : Rule Bool :=
  node kind do
    if ← rule then
      if ← sees .semicolon then
        pure ()
      else
        report .expectedToken "`;` after declaration"
        skipUntil atRecovery
    else
      skipUntil atRecovery
    accept .semicolon

/-- `encoding "utf-8"`, if it comes next. -/
def encodingClause : Rule Bool := do
  if ← seesWord "encoding" then
    takeKeyword
    stringLiteral "encoding name"
  else
    return true

/-- A version declaration without its semicolon; its first keyword comes next. -/
def versionDecl : Rule Bool := do
  takeKeyword
  if ← seesWord "version" then
    takeKeyword
    inOrder [stringLiteral "version string", encodingClause]
  else
    encodingClause

/-- A module declaration without its semicolon; its two keywords come next. The name after them becomes the prefix of the module
even if what follows is not complete. -/
def moduleDecl : Rule Bool := do
  takeKeywords 2
  if ← sees .name then
    let name ← nextText
    modify fun c => { c with modulePrefix := some name }
  inOrder [expectNCName "module prefix", expect .equals "`=` after module prefix", stringLiteral "module namespace URI"]

/-- Whether trivia are all that is left. If so they are looked past. -/
def onlyTriviaLeft : Rule Bool := do
  let c ← get
  if c.ahead.isEmpty && !c.tail.isEmpty then
    lookPast
    return true
  else
    return false

/-- A declaration of no known kind. The word after its keyword is taken with it. If trivia are all that is left then, they are
followed by an empty `error` node. -/
def unknownDecl : Rule Bool := do
  let keyword ← nextText
  takeKeyword
  match ← wordAt? 0 with
  | some name =>
    report .unknownDeclaration (keyword ++ " " ++ name)
    take
    if ← onlyTriviaLeft then
      node .error (pure ())
  | none => report .expectedKeyword ("a declaration keyword after " ++ quoted keyword)
  return false

/-- What a declaration of a kind consists of, without its semicolon. -/
def declBody : NodeKind → Rule Bool
  | .namespaceDecl => namespaceDecl
  | .boundarySpaceDecl => boundarySpaceDecl
  | .defaultNamespaceDecl => defaultNamespaceDecl
  | .defaultCollationDecl => defaultCollationDecl
  | .emptyOrderDecl => emptyOrderDecl
  | .baseUriDecl => baseUriDecl
  | .constructionDecl => constructionDecl
  | .orderingModeDecl => orderingModeDecl
  | .copyNamespacesDecl => copyNamespacesDecl
  | .schemaImport => schemaImport
  | .moduleImport => moduleImport
  | .varDecl => varDecl
  | .functionDecl => functionDecl
  | .optionDecl => optionDecl
  | _ => unknownDecl

/-- Reports a setter at `span` if a declaration that setters come before was read already, at `first`. -/
def checkOrder (kind : NodeKind) (span : Span) (first : Option Span) : Rule Unit := do
  match first with
  | some place =>
    if kind.isSetter then
      reportAt .misplacedDeclaration span none [⟨"first function, variable or option declaration", place⟩]
  | none => pure ()

/-- One declaration of a prolog. `first` is the range of the first variable, function or option declaration so far. -/
def prologStep (first : Option Span) : Rule (Bool × Option Span) := do
  match ← upcomingDecl with
  | none => return (false, first)
  | some kind =>
    let start := (← nextSpan).start
    let _ ← declaration kind (declBody kind)
    let stop := (← get).reached
    demand (start ≤ stop) .reversedSpan
    checkOrder kind ⟨start, stop⟩ first
    return (true, if kind.isBodyDecl then some (first.getD ⟨start, stop⟩) else first)

/-- The declarations of a module. -/
def prologDecls : Rule Unit := do
  let _ ← repeatRule prologStep none

/-- What is left after the prolog of a library module. -/
def libraryTail : Rule Unit := do
  let _ ← nextKind
  if ← atEnd then
    pure ()
  else
    reportNext .libraryModuleBody none
    skipUntil (pure false)

/-- Takes one lexeme of a query body, given the braces that are open, innermost first. A closing brace without a partner is
reported and put into an `error` node of its own. -/
def queryBodyStep (stack : List Span) : Rule (Bool × List Span) := do
  match ← nextKind with
  | none => return (false, stack)
  | some .braceOpen =>
    let span ← nextSpan
    take
    return (true, span :: stack)
  | some .braceClose =>
    match stack with
    | [] =>
      report .unmatchedDelimiter "`\x7d`"
      node .error take
      return (true, [])
    | _ :: outer =>
      take
      return (true, outer)
  | some _ =>
    take
    return (true, stack)

/-- Everything after the prolog of a main module. Of the braces that are never closed, the innermost is reported. -/
def queryBody : Rule Unit := do
  let _ ← nextKind
  if ← atEnd then
    pure ()
  else
    node .queryBody do
      match ← repeatRule queryBodyStep [] with
      | [] => pure ()
      | opening :: _ => reportUnclosed .unclosedBody "brace opened here" opening

/-- Whether a version declaration comes next. -/
def seesVersionDecl : Rule Bool := do
  if ← seesWord "xquery" then
    if ← seesWordAt 1 "version" then
      return true
    else
      seesWordAt 1 "encoding"
  else
    return false

/-- Whether a module declaration comes next. -/
def seesModuleDecl : Rule Bool := do
  if ← seesWord "module" then
    seesWordAt 1 "namespace"
  else
    return false

/-- The rest of a library module from its module declaration on. Trivia right after the semicolon of the module declaration
belong to the prolog if a declaration follows them, and else stand after the prolog. -/
def libraryModule : Rule Unit := do
  if ← declaration .moduleDecl moduleDecl then
    nodeWithLead .prolog prologDecls
  else
    node .prolog prologDecls
  libraryTail

/-- The prolog and the query body of a main module. -/
def mainModule : Rule Unit := do
  node .prolog prologDecls
  queryBody

/-- A whole module, whatever the source. -/
def wholeModule : Rule Unit :=
  nodeWithLead .root do
    if ← seesVersionDecl then
      let _ ← declaration .versionDecl versionDecl
    if ← seesModuleDecl then
      libraryModule
    else
      mainModule
    eatTrivia

end Grammar

/-- A source that was read. -/
structure Parsed where
  tree : Tree
  reports : List Diagnostic
  /-- What was found wrong with the grammar itself. -/
  defects : List Grammar.Defect
  deriving Repr

/-- What was read once nothing is left. The tree is the one that was put together, with every node in it finished. -/
def Parsed.ofCursor (c : Grammar.Cursor) : Parsed where
  tree := c.builder.tree?.getD (.node .root c.parts)
  reports := c.reports
  defects := c.defects ++ c.builder.defects ++ if c.builder.tree?.isSome then [] else [.unbalanced]

/-- Reads a source. -/
def Parsed.ofSource (source : String) : Parsed := ofCursor (Grammar.wholeModule (.start source)).2

end QueryStubs
