import QueryStubs.Token

/-!
# Syntax trees

A tree is lossless: its leaves, from left to right, are the tokens of the source, trivia and garbage among them. Node kinds name
the constructs of a module; an `error` node holds what a construct could not use. Places are not stored, because they follow from
the lengths of the leaves to the left, so that equal pieces of source give equal trees wherever they stand.
-/

namespace QueryStubs

/-- The constructs of a module. -/
inductive NodeKind where
  | error
  | root | versionDecl | moduleDecl | prolog
  | namespaceDecl | defaultNamespaceDecl | boundarySpaceDecl | defaultCollationDecl | baseUriDecl | constructionDecl
  | orderingModeDecl | emptyOrderDecl | copyNamespacesDecl | schemaImport | moduleImport
  | varDecl | varValue | optionDecl | functionDecl
  | paramList | param | typeDecl | sequenceType | atomicType | kindTest | anyItem | emptySequence | occurrence
  | enclosedBody | externalBody
  | qname | str | queryBody
  deriving DecidableEq, Repr

namespace NodeKind

/-- The name a kind is listed under. -/
def label : NodeKind → String
  | error => "Error"
  | root => "Root"
  | versionDecl => "VersionDecl"
  | moduleDecl => "ModuleDecl"
  | prolog => "Prolog"
  | namespaceDecl => "NamespaceDecl"
  | defaultNamespaceDecl => "DefaultNamespaceDecl"
  | boundarySpaceDecl => "BoundarySpaceDecl"
  | defaultCollationDecl => "DefaultCollationDecl"
  | baseUriDecl => "BaseUriDecl"
  | constructionDecl => "ConstructionDecl"
  | orderingModeDecl => "OrderingModeDecl"
  | emptyOrderDecl => "EmptyOrderDecl"
  | copyNamespacesDecl => "CopyNamespacesDecl"
  | schemaImport => "SchemaImport"
  | moduleImport => "ModuleImport"
  | varDecl => "VarDecl"
  | varValue => "VarValue"
  | optionDecl => "OptionDecl"
  | functionDecl => "FunctionDecl"
  | paramList => "ParamList"
  | param => "Param"
  | typeDecl => "TypeDecl"
  | sequenceType => "SequenceType"
  | atomicType => "AtomicType"
  | kindTest => "KindTest"
  | anyItem => "AnyItem"
  | emptySequence => "EmptySequence"
  | occurrence => "Occurrence"
  | enclosedBody => "EnclosedBody"
  | externalBody => "ExternalBody"
  | qname => "QName"
  | str => "Str"
  | queryBody => "QueryBody"

/-- The declarations that have to come before every variable, function and option declaration. -/
def isSetter : NodeKind → Bool
  | namespaceDecl | defaultNamespaceDecl | boundarySpaceDecl | defaultCollationDecl | baseUriDecl | constructionDecl
  | orderingModeDecl | emptyOrderDecl | copyNamespacesDecl | schemaImport | moduleImport => true
  | _ => false

/-- The declarations that setters have to come before. -/
def isBodyDecl : NodeKind → Bool
  | varDecl | optionDecl | functionDecl => true
  | _ => false

end NodeKind

/-- A leaf is a token; an inner node is a construct and its parts in source order. -/
inductive Tree where
  | leaf (token : Token)
  | node (kind : NodeKind) (children : List Tree)
  deriving Repr

namespace Tree

mutual

/-- The tokens of a tree from left to right. -/
def leaves : Tree → List Token
  | leaf t => [t]
  | node _ ts => leavesOf ts

/-- The tokens of a row of trees from left to right. -/
def leavesOf : List Tree → List Token
  | [] => []
  | t :: ts => leaves t ++ leavesOf ts

end

/-- The source text under a tree. -/
def text (t : Tree) : String := Token.textOf t.leaves

/-- The source text under a tree without its trivia. -/
def compactText (t : Tree) : String := Token.textOf (t.leaves.filter (!·.isTrivia))

/-- The length of a tree in bytes. -/
def size (t : Tree) : Nat := Token.sizeOf t.leaves

@[simp] theorem leaves_leaf (t : Token) : (leaf t).leaves = [t] := by simp [leaves]

@[simp] theorem leaves_node (k : NodeKind) (ts : List Tree) : (node k ts).leaves = leavesOf ts := by simp [leaves]

/-- The leaves of a row of trees are those of its trees in order. -/
theorem leavesOf_eq_flatMap (ts : List Tree) : leavesOf ts = ts.flatMap leaves := by
  induction ts with
  | nil => simp [leavesOf]
  | cons t ts ih => simp [leavesOf, ih]

@[simp] theorem leavesOf_append (ts us : List Tree) : leavesOf (ts ++ us) = leavesOf ts ++ leavesOf us := by
  simp [leavesOf_eq_flatMap]

/-- A row of leaves has just those tokens. -/
@[simp] theorem leavesOf_map_leaf (ts : List Token) : leavesOf (ts.map leaf) = ts := by
  induction ts with
  | nil => simp [leavesOf]
  | cons t ts ih => simp [leavesOf, ih]

end Tree

end QueryStubs
