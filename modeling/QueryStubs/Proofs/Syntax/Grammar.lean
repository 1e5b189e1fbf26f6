import QueryStubs.Grammar.SequenceType
import QueryStubs.Proofs.Syntax.Form

/-!
# The grammar of modules

Each construct of a module as a form. `Form.whole` is the form of a whole module.

Three choices are made by the words that come first and not by what follows them: a source that starts as a version declaration has
one, what then starts as a module declaration is a library module, and a query body starts no declaration. They are the three guards
of `Form.whole`; everything else is decided by the lexemes a form is made of.
-/

namespace QueryStubs.Grammar

open QueryStubs

/-- The `i`-th of some tokens is a word. -/
def IsWordAt (i : Nat) (word : String) (ts : List Token) : Prop := ts[i]?.any (·.isWord word) = true

/-- Tokens that a version declaration starts with. -/
def StartsVersion (ts : List Token) : Prop := IsWordAt 0 "xquery" ts ∧ (IsWordAt 1 "version" ts ∨ IsWordAt 1 "encoding" ts)

/-- Tokens that a module declaration starts with. -/
def StartsModule (ts : List Token) : Prop := IsWordAt 0 "module" ts ∧ IsWordAt 1 "namespace" ts

/-- Tokens that a declaration of a prolog starts with. -/
def StartsDecl (ts : List Token) : Prop := IsWordAt 0 "declare" ts ∨ IsWordAt 0 "import" ts

/-- Kinds in a row whose brackets of one shape are balanced. -/
def Balanced (openKind closeKind : TokenKind) (ks : List TokenKind) : Prop :=
  depthAfter (· = openKind) (· = closeKind) (fun _ => false) 0 ks = some 0

instance (openKind closeKind : TokenKind) (ks : List TokenKind) : Decidable (Balanced openKind closeKind ks) :=
  inferInstanceAs (Decidable (_ = _))

/-- Kinds that the value of a variable may consist of: there is one at least, brackets are balanced, whatever their shapes, and no
semicolon stands outside them. -/
def ValueKinds (ks : List TokenKind) : Prop :=
  ks ≠ [] ∧ depthAfter TokenKind.isOpening TokenKind.isClosing (· = .semicolon) 0 ks = some 0

namespace Form

/-! ## Small forms -/

/-- A lexeme of a kind. -/
def mark (kind : TokenKind) : Form := .one (· = kind)

/-- A form that nothing has. -/
def never : Form := .one fun _ => false

/-- A word. -/
def word (w : String) : Form := .keyword [w]

/-- A form that may be left out. -/
def optional (f : Form) : Form := .either f .nothing

/-- Several forms one after the other. -/
def row : List Form → Form
  | [] => .nothing
  | [f] => f
  | f :: g :: fs => .seq f (row (g :: fs))

/-- One of some words, then one of some others, and so on. -/
def keywords : List (List String) → Form
  | [] => .nothing
  | ws :: wss => .seq (.keyword ws) (keywords wss)

/-- One of several forms. -/
def anyOf : List Form → Form
  | [] => never
  | f :: fs => .either f (anyOf fs)

/-- A form once or more often, with commas between. -/
def listOf (f : Form) : Form := .seq f (.many (.seq (mark .comma) f))

/-! ## Names, literals and types -/

/-- `p:f` or `f` -/
def qname : Form := .node .qname (.either .prefixed (mark .name))

/-- A string literal in one of the two marks. -/
def literalIn (quote : TokenKind) : Form := row [mark quote, optional (mark .literalText), mark quote]

/-- A string literal. -/
def str : Form := .node .str (.either (literalIn .doubleQuote) (literalIn .singleQuote))

/-- Two brackets and what is between them, which is balanced. -/
def bracketed (openKind closeKind : TokenKind) : Form :=
  row [mark openKind, .run (Balanced openKind closeKind), mark closeKind]

/-- The mark that may follow an item type. -/
def occurrence : Form := optional (.node .occurrence (.one TokenKind.isOccurrence))

/-- A word and an empty pair of parentheses. -/
def emptyParens (kind : NodeKind) (w : String) : Form := .node kind (row [word w, mark .parenOpen, mark .parenClose])

/-- A kind test. -/
def kindTest : Form := .node .kindTest (.seq (.keyword kindTestNames) (bracketed .parenOpen .parenClose))

/-- The name of an atomic type, and perhaps a mark. -/
def atomicType : Form := .seq (.node .atomicType qname) occurrence

/-- A test with parentheses, and perhaps a mark; `empty-sequence()` has none. -/
def testType : Form :=
  anyOf [emptyParens .emptySequence "empty-sequence", .seq (emptyParens .anyItem "item") occurrence, .seq kindTest occurrence]

/-- An item type with the mark after it. -/
def itemType : Form := .either atomicType testType

/-- `as` and a sequence type -/
def typeDecl : Form := .node .typeDecl (.seq (word "as") (.leadNode .sequenceType itemType))

/-! ## Functions, variables and options -/

/-- `$p as T` -/
def param : Form := .node .param (row [mark .dollar, qname, optional typeDecl])

/-- Parameters in parentheses. -/
def paramList : Form := .node .paramList (row [mark .parenOpen, optional (listOf param), mark .parenClose])

/-- `external` or a body in braces -/
def functionBody : Form := .either (.node .enclosedBody (bracketed .braceOpen .braceClose)) (.node .externalBody (word "external"))

/-- What follows the words `declare function`. -/
def functionRest : Form := row [qname, paramList, optional typeDecl, functionBody]

/-- `:=` and a value -/
def varValue : Form := .node .varValue (row [mark .colonEquals, .run ValueKinds])

/-- What follows the words `declare variable`. -/
def varRest : Form :=
  row [mark .dollar, qname, optional typeDecl, .either varValue (row [word "external", optional varValue])]

/-- What follows the words `declare option`. -/
def optionRest : Form := row [qname, str]

/-! ## Setters and imports -/

/-- `p =` -/
def prefixBinding : Form := row [mark .name, mark .equals]

/-- Places that an import may be found at. -/
def locations : Form := optional (.seq (word "at") (listOf str))

/-- What follows the words `import schema`. -/
def schemaRest : Form :=
  row [optional (.either (.seq (word "namespace") prefixBinding) (.seq (word "default") (row [word "element", word "namespace"]))),
    str, locations]

/-- What follows the words `import module`. -/
def moduleRest : Form := row [optional (.seq (word "namespace") prefixBinding), str, locations]

/-- The words that a declaration of a kind starts with: one of those in the first list, one of those in the second, and so on. -/
def declWords : NodeKind → List (List String)
  | .namespaceDecl => [["declare"], ["namespace"]]
  | .boundarySpaceDecl => [["declare"], ["boundary-space"]]
  | .defaultNamespaceDecl => [["declare"], ["default"], ["element", "function"]]
  | .defaultCollationDecl => [["declare"], ["default"], ["collation"]]
  | .emptyOrderDecl => [["declare"], ["default"], ["order"]]
  | .baseUriDecl => [["declare"], ["base-uri"]]
  | .constructionDecl => [["declare"], ["construction"]]
  | .orderingModeDecl => [["declare"], ["ordering"]]
  | .copyNamespacesDecl => [["declare"], ["copy-namespaces"]]
  | .schemaImport => [["import"], ["schema"]]
  | .moduleImport => [["import"], ["module"]]
  | .varDecl => [["declare"], ["variable"]]
  | .functionDecl => [["declare"], ["function"]]
  | .optionDecl => [["declare"], ["option"]]
  | _ => []

/-- What follows these words, without the semicolon. -/
def declRest : NodeKind → Form
  | .namespaceDecl => row [prefixBinding, str]
  | .boundarySpaceDecl => .keyword ["preserve", "strip"]
  | .defaultNamespaceDecl => row [word "namespace", str]
  | .defaultCollationDecl => str
  | .emptyOrderDecl => row [word "empty", .keyword ["greatest", "least"]]
  | .baseUriDecl => str
  | .constructionDecl => .keyword ["strip", "preserve"]
  | .orderingModeDecl => .keyword ["ordered", "unordered"]
  | .copyNamespacesDecl => row [.keyword ["preserve", "no-preserve"], mark .comma, .keyword ["inherit", "no-inherit"]]
  | .schemaImport => schemaRest
  | .moduleImport => moduleRest
  | .varDecl => varRest
  | .functionDecl => functionRest
  | .optionDecl => optionRest
  | _ => never

/-- A declaration of a kind without its semicolon. -/
def declBody (kind : NodeKind) : Form := .seq (keywords (declWords kind)) (declRest kind)

/-- What a function declaration starts with: its two words, its name, its parameters, and perhaps the type of its result. -/
def signature : Form := row [keywords (declWords .functionDecl), qname, paramList, optional typeDecl]

/-- A declaration with its semicolon. -/
def declared (kind : NodeKind) (body : Form) : Form := .node kind (.seq body (mark .semicolon))

/-! ## Modules -/

/-- The kinds of setters and imports. -/
def setterKinds : List NodeKind :=
  [.namespaceDecl, .defaultNamespaceDecl, .boundarySpaceDecl, .defaultCollationDecl, .baseUriDecl, .constructionDecl,
    .orderingModeDecl, .emptyOrderDecl, .copyNamespacesDecl, .schemaImport, .moduleImport]

/-- The kinds of the other declarations. -/
def otherKinds : List NodeKind := [.varDecl, .optionDecl, .functionDecl]

/-- A declaration of one of some kinds. -/
def declOf (kinds : List NodeKind) : Form := anyOf (kinds.map fun kind => declared kind (declBody kind))

/-- Setters and imports, and then the other declarations. -/
def prolog : Form := .seq (.many (declOf setterKinds)) (.many (declOf otherKinds))

/-- `encoding "utf-8"` -/
def encoding : Form := .seq (word "encoding") str

/-- `xquery version "1.0" encoding "utf-8"`, where one of the two may be left out -/
def versionBody : Form := .seq (word "xquery") (.either (row [word "version", str, optional encoding]) encoding)

/-- `module namespace p = "uri"` -/
def moduleBody : Form := .seq (keywords [["module"], ["namespace"]]) (row [mark .name, mark .equals, str])

/-- What is left after the prolog of a main module: nothing, or lexemes whose braces are balanced. -/
def queryBody : Form := optional (.node .queryBody (.run fun ks => ks ≠ [] ∧ Balanced .braceOpen .braceClose ks))

/-- A module declaration and a prolog. -/
def libraryModule : Form := .seq (declared .moduleDecl moduleBody) (.leadNode .prolog prolog)

/-- A prolog and a query body. -/
def mainModule : Form := .seq (.node .prolog prolog) (.guard (¬ StartsDecl ·) queryBody)

/-- A version declaration, where there is one. -/
def version : Form := .either (declared .versionDecl versionBody) (.guard (¬ StartsVersion ·) .nothing)

/-- A whole module. -/
def whole : Form :=
  .leadNode .root (row [version, .either libraryModule (.guard (¬ StartsModule ·) mainModule), .trivia])

end Form

end QueryStubs.Grammar
