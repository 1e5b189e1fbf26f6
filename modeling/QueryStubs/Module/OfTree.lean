import QueryStubs.Module
import QueryStubs.Tree.View
import QueryStubs.Grammar.Module
import QueryStubs.Text.Position
import QueryStubs.Diagnostic.Suppression

/-!
# From a source to a module

`Module.ofTree` reduces a tree to a module and always succeeds: a function of which a required part is missing is left out.
`Module.parse` reads a source and fails at its first error, so what it gives has no gaps.
-/

namespace QueryStubs

namespace Node

/-- The name that a node spells. -/
def toQName? (n : Node) : Option QName := do
  let localPart ← n.localPart?
  return { qualifier := n.qualifier?, localPart }

/-- The item type that a node spells. -/
def toItemType? (n : Node) : Option ItemType :=
  match n.kind with
  | .atomicType => do
    let name ← n.qname?
    return .atomic (← name.toQName?)
  | .kindTest => do
    let keyword ← n.testKeyword?
    return .kindTest (← KindTest.ofKeyword? keyword) n.compactText
  | .anyItem => some .anyItem
  | .emptySequence => some .emptySequence
  | _ => none

/-- The occurrence that a sequence type spells: one item unless there is a mark. -/
def toOccurrence? (type : Node) : Option Occurrence :=
  match type.child? .occurrence with
  | none => some .exactlyOne
  | some mark => mark.leaves.head?.bind fun t => Occurrence.ofIndicator? t.text

/-- The sequence type that a node spells. -/
def toSequenceType? (n : Node) : Option SequenceType := do
  let item ← n.itemType?
  return { item := ← item.toItemType?, occurrence := ← n.toOccurrence? }

/-- The declared type of a parameter or a result: `none` if a part of the type is missing, `some none` if no type is declared. -/
def toDeclaredType? (n : Node) : Option (Option SequenceType) :=
  match n.typeDecl? with
  | none => some none
  | some decl => do
    let type ← decl.sequenceType?
    return some (← type.toSequenceType?)

/-- The parameter that a node spells. -/
def toParam? (n : Node) : Option Param := do
  let name ← n.qname?
  return { name := ← name.toQName?, type := ← n.toDeclaredType? }

/-- The kind of a function's body. -/
def toFunctionBody (n : Node) : FunctionBody := if n.kind = .externalBody then .external else .enclosed

/-- The function that a node declares. -/
def toFunctionDecl? (n : Node) : Option FunctionDecl := do
  let name ← n.qname?
  let name ← name.toQName?
  let params ← n.params.mapM toParam?
  let returnType ← n.toDeclaredType?
  let body ← n.functionBody?
  return { name, params, returnType, body := body.toFunctionBody, span := n.span }

/-- The version that a node declares. -/
def toVersion (n : Node) : Version :=
  { version := n.version?.map literalValue, encoding := n.encoding?.map literalValue }

/-- What kind of module a tree is. -/
def toModuleKind (root : Node) : ModuleKind :=
  match root.moduleDecl? with
  | some decl => .library (decl.boundPrefix?.getD "") (decl.uri?.elim "" literalValue)
  | none => .main

end Node

namespace Module

/-- The module that a tree holds. Functions with missing parts are left out. -/
def ofNode (root : Node) : Module :=
  { version := root.versionDecl?.map Node.toVersion
    kind := root.toModuleKind
    functions := root.prolog?.elim [] fun p => p.functionDecls.filterMap Node.toFunctionDecl? }

/-- The module that a tree holds. Functions with missing parts are left out. -/
def ofTree (tree : Tree) : Module := ofNode (.ofTree tree)

end Module

/-- The first error of a source: where it is, what was expected there, and all reports. -/
structure SyntaxError where
  position : Position
  expected : String
  reports : List Diagnostic
  deriving DecidableEq, Repr

/-- The written form of an error in a source. -/
def SyntaxError.message (e : SyntaxError) : String := "syntax error at " ++ e.position.text ++ ": " ++ e.expected

namespace Parsed

/-- The top of the tree. -/
def root (p : Parsed) : Node := .ofTree p.tree

/-- Whether there is an error among the reports. -/
def hasErrors (p : Parsed) : Bool := p.reports.any (·.isError)

/-- Whether there is a warning among the reports. -/
def hasWarnings (p : Parsed) : Bool := p.reports.any (·.isWarning)

/-- The module that was read, whatever the reports. -/
def module (p : Parsed) : Module := .ofTree p.tree

end Parsed

/-- Reads a module and its reports, which are warnings then, or gives the first error in source order. -/
def Module.parseReporting (source : String) : Except SyntaxError (Module × List Diagnostic) :=
  let p := Parsed.ofSource source
  match Diagnostic.firstError? p.reports with
  | some first =>
    .error { position := .ofOffset source first.span.start, expected := first.message, reports := p.reports }
  | none => .ok (p.module, p.reports)

/-- Reads a module, or gives the first error in source order. -/
def Module.parse (source : String) : Except SyntaxError Module := (parseReporting source).map (·.1)

end QueryStubs
