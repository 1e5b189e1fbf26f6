import QueryStubs.Text.Span

/-!
# Modules: what stubs are made from

A module reduced to its version, its namespace and the signatures of its functions, in source order. Names and texts are plain
strings here; that they are well formed is a fact about modules that were read, not a condition of the type.
-/

namespace QueryStubs

/-- A name, perhaps with a prefix before a colon. -/
structure QName where
  qualifier : Option String := none
  localPart : String
  deriving DecidableEq, Repr

namespace QName

/-- The prefix, empty for a name without one. -/
def qualifierText (n : QName) : String := n.qualifier.getD ""

/-- The written form of a name. -/
def text (n : QName) : String :=
  match n.qualifier with
  | some p => p ++ ":" ++ n.localPart
  | none => n.localPart

end QName

/-- How many items a sequence type admits. -/
inductive Occurrence where
  | exactlyOne | optional | zeroOrMore | oneOrMore
  deriving DecidableEq, Repr

namespace Occurrence

/-- The mark of an occurrence; one item is not marked. -/
def indicator : Occurrence → String
  | exactlyOne => ""
  | optional => "?"
  | zeroOrMore => "*"
  | oneOrMore => "+"

/-- The occurrence that a mark stands for. -/
def ofIndicator? (mark : String) : Option Occurrence :=
  if mark = "?" then some optional
  else if mark = "*" then some zeroOrMore
  else if mark = "+" then some oneOrMore
  else none

/-- The name an occurrence is exported under. -/
def label : Occurrence → String
  | exactlyOne => "exactly_one"
  | optional => "optional"
  | zeroOrMore => "zero_or_more"
  | oneOrMore => "one_or_more"

end Occurrence

/-- The kind tests. -/
inductive KindTest where
  | node | text | comment | processingInstruction | element | attributeTest | documentNode | schemaElement | schemaAttribute
  deriving DecidableEq, Repr

namespace KindTest

/-- All kind tests. -/
def all : List KindTest :=
  [node, text, comment, processingInstruction, element, attributeTest, documentNode, schemaElement, schemaAttribute]

/-- The keyword of a kind test. -/
def keyword : KindTest → String
  | node => "node"
  | text => "text"
  | comment => "comment"
  | processingInstruction => "processing-instruction"
  | element => "element"
  | attributeTest => "attribute"
  | documentNode => "document-node"
  | schemaElement => "schema-element"
  | schemaAttribute => "schema-attribute"

/-- The kind test with a keyword. -/
def ofKeyword? (word : String) : Option KindTest := all.find? (·.keyword = word)

end KindTest

/-- What kind of item a sequence type admits. -/
inductive ItemType where
  | atomic (name : QName)
  /-- A kind test and its source text without blanks and comments. -/
  | kindTest (test : KindTest) (text : String)
  | anyItem
  | emptySequence
  deriving DecidableEq, Repr

/-- The written form of an item type. -/
def ItemType.text : ItemType → String
  | atomic name => name.text
  | kindTest _ text => text
  | anyItem => "item()"
  | emptySequence => "empty-sequence()"

/-- An item type and how many of its items are admitted. -/
structure SequenceType where
  item : ItemType
  occurrence : Occurrence
  deriving DecidableEq, Repr

/-- The written form of a sequence type. -/
def SequenceType.text (t : SequenceType) : String := t.item.text ++ t.occurrence.indicator

/-- A parameter of a function. -/
structure Param where
  name : QName
  type : Option SequenceType
  deriving DecidableEq, Repr

/-- Whether a function has a body of its own or is defined elsewhere. -/
inductive FunctionBody where
  | enclosed | external
  deriving DecidableEq, Repr

/-- The signature of a function and the range of its declaration in the source. -/
structure FunctionDecl where
  name : QName
  params : List Param
  returnType : Option SequenceType
  body : FunctionBody
  span : Span
  deriving DecidableEq, Repr

/-- The version and the encoding that a module says it is written in. -/
structure Version where
  version : Option String
  encoding : Option String
  deriving DecidableEq, Repr

/-- A library module has a namespace, bound to a prefix; a main module has none. -/
inductive ModuleKind where
  | library (qualifier uri : String)
  | main
  deriving DecidableEq, Repr

/-- A module reduced to what stubs are made from. -/
structure Module where
  version : Option Version
  kind : ModuleKind
  functions : List FunctionDecl
  deriving DecidableEq, Repr

namespace Module

/-- The prefix and the URI of a library module. -/
def namespace? (m : Module) : Option (String × String) :=
  match m.kind with
  | .library qualifier uri => some (qualifier, uri)
  | .main => none

/-- Whether the module is a library module. -/
def isLibrary (m : Module) : Bool := m.namespace?.isSome

end Module

end QueryStubs
