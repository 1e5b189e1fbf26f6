import QueryStubs.Tree
import QueryStubs.Text.Span
import QueryStubs.Text.Literal

/-!
# Views: what a tree says

A `Node` is a node of a tree together with the place where it starts. The functions here name the parts of a node by their role:
the name of a function, the type of a parameter, the text of a string literal. Every one of them is total. In a tree with faults
a part may be missing or may stand in an `error` node, where no view finds it.
-/

namespace QueryStubs

/-- A node of a tree and the byte offset at which it starts. -/
structure Node where
  kind : NodeKind
  children : List Tree
  start : Nat
  deriving Repr

/-- A part of a node. -/
inductive Part where
  | token (token : Token)
  | node (node : Node)
  deriving Repr

/-- A row of trees as parts, of which the first starts at a byte offset. -/
def Part.ofTrees : Nat → List Tree → List Part
  | _, [] => []
  | offset, .leaf t :: ts => .token t :: ofTrees (offset + t.size) ts
  | offset, .node kind children :: ts =>
    .node ⟨kind, children, offset⟩ :: ofTrees (offset + Token.sizeOf (Tree.leavesOf children)) ts

namespace Part

/-- The part as a token. -/
def token? : Part → Option Token
  | token t => some t
  | node _ => none

/-- The part as a node. -/
def node? : Part → Option Node
  | token _ => none
  | node n => some n

/-- Whether the part is a keyword with a spelling. -/
def isKeyword (word : String) : Part → Bool
  | token t => t.kind = .keyword && t.text = word
  | node _ => false

/-- Whether the part is a blank, a line end or a comment. -/
def isTrivia : Part → Bool
  | token t => t.isTrivia
  | node _ => false

end Part

namespace Node

/-- The top of a tree. -/
def ofTree : Tree → Node
  | .leaf t => ⟨.error, [.leaf t], 0⟩
  | .node kind children => ⟨kind, children, 0⟩

/-- The tokens under a node from left to right. -/
def leaves (n : Node) : List Token := Tree.leavesOf n.children

/-- The source text under a node. -/
def text (n : Node) : String := Token.textOf n.leaves

/-- The source text under a node without its trivia. -/
def compactText (n : Node) : String := Token.textOf (n.leaves.filter (!·.isTrivia))

/-- The range of a node in the source. -/
def span (n : Node) : Span := ⟨n.start, n.start + Token.sizeOf n.leaves⟩

/-- The parts of a node, in order. -/
def parts (n : Node) : List Part := Part.ofTrees n.start n.children

/-- The tokens that are parts of a node, in order. -/
def tokens (n : Node) : List Token := n.parts.filterMap Part.token?

/-- The nodes that are parts of a node, in order. -/
def nodes (n : Node) : List Node := n.parts.filterMap Part.node?

/-- The parts of a kind. -/
def childrenOf (kind : NodeKind) (n : Node) : List Node := n.nodes.filter (·.kind = kind)

/-- The first part of a kind. -/
def child? (kind : NodeKind) (n : Node) : Option Node := n.nodes.find? (·.kind = kind)

/-- The string literal that comes right after a keyword. -/
def literalAfter? (word : String) (n : Node) : Option Node :=
  match ((n.parts.dropWhile fun p => !p.isKeyword word).drop 1).find? fun p => !p.isTrivia with
  | some (.node m) => if m.kind = .str then some m else none
  | _ => none

/-! ## Modules -/

/-- The version declaration of a module. -/
def versionDecl? (root : Node) : Option Node := root.child? .versionDecl

/-- The module declaration of a module. -/
def moduleDecl? (root : Node) : Option Node := root.child? .moduleDecl

/-- The prolog of a module. -/
def prolog? (root : Node) : Option Node := root.child? .prolog

/-- The query body of a module. -/
def queryBody? (root : Node) : Option Node := root.child? .queryBody

/-- A module with a module declaration is a library module. -/
def isLibrary (root : Node) : Bool := root.moduleDecl?.isSome

/-- The version that a version declaration gives. -/
def version? (decl : Node) : Option Node := decl.literalAfter? "version"

/-- The encoding that a version declaration gives. -/
def encoding? (decl : Node) : Option Node := decl.literalAfter? "encoding"

/-- The prefix that a module declaration binds. -/
def boundPrefix? (decl : Node) : Option String := (decl.tokens.find? (·.kind = .name)).map (·.text)

/-- The namespace URI of a module declaration. -/
def uri? (decl : Node) : Option Node := decl.child? .str

/-- Whether a node of a prolog is a declaration of a known kind. -/
def isDecl (n : Node) : Bool := n.kind.isSetter || n.kind.isBodyDecl

/-- The declarations of known kinds in a prolog. -/
def decls (prolog : Node) : List Node := prolog.nodes.filter isDecl

/-- The function declarations of a prolog. -/
def functionDecls (prolog : Node) : List Node := prolog.childrenOf .functionDecl

/-! ## Functions -/

/-- The qualified name that is part of a function, a parameter or an atomic type. -/
def qname? (n : Node) : Option Node := n.child? .qname

/-- The parameter list of a function. -/
def paramList? (decl : Node) : Option Node := decl.child? .paramList

/-- The parameters of a function. -/
def params (decl : Node) : List Node :=
  match decl.paramList? with
  | none => []
  | some list => list.childrenOf .param

/-- The type declaration of a function's result or of a parameter. -/
def typeDecl? (n : Node) : Option Node := n.child? .typeDecl

/-- Whether a node is the body of a function. -/
def isFunctionBody (n : Node) : Bool := n.kind = .enclosedBody || n.kind = .externalBody

/-- The body of a function. -/
def functionBody? (decl : Node) : Option Node := decl.nodes.find? isFunctionBody

/-! ## Types, names and literals -/

/-- The sequence type of a type declaration. -/
def sequenceType? (decl : Node) : Option Node := decl.child? .sequenceType

/-- Whether a node is an item type. -/
def isItemType (n : Node) : Bool :=
  n.kind = .atomicType || n.kind = .kindTest || n.kind = .anyItem || n.kind = .emptySequence

/-- The item type of a sequence type. -/
def itemType? (type : Node) : Option Node := type.nodes.find? isItemType

/-- The spelling of the mark after the item type of a sequence type. -/
def occurrence? (type : Node) : Option String :=
  (type.child? .occurrence).bind fun mark => mark.leaves.head?.map (·.text)

/-- The keyword of a kind test. -/
def testKeyword? (test : Node) : Option String := (test.tokens.find? (·.kind = .keyword)).map (·.text)

/-- The names that make up a qualified name. -/
def nameTexts (name : Node) : List String := (name.tokens.filter (·.kind = .name)).map (·.text)

/-- The part of a qualified name after the colon, or all of it. -/
def localPart? (name : Node) : Option String := name.nameTexts.getLast?

/-- The part of a qualified name before the colon. -/
def qualifier? (name : Node) : Option String :=
  match name.nameTexts with
  | first :: _ :: _ => some first
  | _ => none

/-- The text between the marks of a string literal as it is written, if there is any. -/
def rawLiteral? (literal : Node) : Option String := (literal.tokens.find? (·.kind = .literalText)).map (·.text)

/-- The mark a string literal is written in. -/
def quote? (literal : Node) : Option Quote :=
  literal.tokens.findSome? fun t =>
    match t.kind with
    | .doubleQuote => some .double
    | .singleQuote => some .single
    | _ => none

/-- The text that a string literal stands for. -/
def literalValue (literal : Node) : String :=
  match literal.rawLiteral? with
  | none => ""
  | some raw => String.ofList (Text.collapse (literal.quote?.getD .double).char raw.toList)

end Node

end QueryStubs
