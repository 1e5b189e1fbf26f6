import QueryStubs.Proofs.Syntax.Form
import QueryStubs.Proofs.Written.Tokens

/-!
# The trees of what was written

`Module.tree` is the tree that a written module is read as. It holds the text that was written (`Module.source_eq`), and the scanner
cuts this text into the leaves of the tree, keywords being names to it (`Module.apart`).
-/

namespace QueryStubs

open Grammar (leavesFor)

/-! ## Trees and their tokens -/

/-- A token of a tree as the scanner gave it: a keyword was a name. -/
def Token.asScanned (t : Token) : Token := if t.kind = .keyword then .ofName t.text else t

/-- The tokens that a tree was made from. -/
def Tree.tokens (u : Tree) : List Token := u.leaves.map Token.asScanned

/-- The tokens that trees were made from. -/
def tokensOf (us : List Tree) : List Token := us.flatMap Tree.tokens

@[simp] theorem tokensOf_nil : tokensOf [] = [] := rfl

@[simp] theorem tokensOf_cons (u : Tree) (us : List Tree) : tokensOf (u :: us) = u.tokens ++ tokensOf us := rfl

@[simp] theorem tokensOf_append (us vs : List Tree) : tokensOf (us ++ vs) = tokensOf us ++ tokensOf vs := by
  simp [tokensOf]

@[simp] theorem Tree.tokens_leaf (t : Token) : (leaf t).tokens = [t.asScanned] := by
  simp [tokens]

@[simp] theorem Tree.tokens_node (kind : NodeKind) (us : List Tree) : (node kind us).tokens = tokensOf us := by
  rw [tokens, leaves_node, leavesOf_eq_flatMap, List.map_flatMap]
  rfl

/-- Tokens without a keyword are scanned as they are. -/
theorem tokensOf_leavesFor {ts : List Token} (h : ∀ t ∈ ts, t.kind ≠ .keyword) : tokensOf (leavesFor ts) = ts := by
  induction ts with
  | nil => exact tokensOf_nil
  | cons t ts ih =>
    have ht : t.asScanned = t := if_neg (h t (List.mem_cons_self ..))
    have hcons : leavesFor (t :: ts) = .leaf t :: leavesFor ts := rfl
    rw [hcons, tokensOf_cons, Tree.tokens_leaf, ht, ih fun u hu => h u (List.mem_cons_of_mem _ hu)]
    rfl

/-- A word that was taken as a keyword. -/
def Tree.word (w : String) : Tree := .leaf ⟨.keyword, w⟩

/-- A name. -/
def Tree.name (w : String) : Tree := .leaf (.ofName w)

/-- A space. -/
def Tree.space : Tree := .leaf .space

/-- A mark. -/
def Tree.mark (kind : TokenKind) (c : Char) : Tree := .leaf (.ofMark kind c)

@[simp] theorem Tree.tokens_word (w : String) : (word w).tokens = [.ofName w] := tokens_leaf _

@[simp] theorem Tree.tokens_name (w : String) : (name w).tokens = [.ofName w] := tokens_leaf _

@[simp] theorem Tree.tokens_mark {kind : TokenKind} (c : Char) (h : kind ≠ .keyword) : (mark kind c).tokens = [.ofMark kind c] := by
  have hk : (Token.ofMark kind c).asScanned = .ofMark kind c := if_neg h
  rw [mark, tokens_leaf, hk]

@[simp] theorem Tree.tokens_space : space.tokens = [.space] := tokens_leaf _

/-! ## Trees of names, literals and types -/

/-- The tokens of a name. -/
def QName.tokens : QName → List Token
  | ⟨some p, l⟩ => [.ofName p, .ofMark .colon ':', .ofName l]
  | ⟨none, l⟩ => [.ofName l]

/-- The tree of a name. -/
def QName.tree (n : QName) : Tree := .node .qname (leavesFor n.tokens)

/-- The tokens of a string literal. -/
def Quoted.tokens (l : Quoted) : List Token :=
  .ofQuote l.quote :: (Token.ofBody (Text.doubled l.quote.char l.text.toList) ++ [.ofQuote l.quote])

/-- The tree of a string literal. -/
def Quoted.tree (l : Quoted) : Tree := .node .str (leavesFor l.tokens)

/-- The tokens of the names in the parentheses of a kind test. -/
def argumentTokens (names : List QName) : List Token := [Token.ofMark .comma ','].intercalate (names.map QName.tokens)

/-- The tokens of a kind test. -/
def KindTest.tokens (k : KindTest) (names : List QName) : List Token :=
  .ofName k.keyword :: .ofMark .parenOpen '(' :: (argumentTokens names ++ [.ofMark .parenClose ')'])

/-- The leaves of a construct that starts with a keyword. -/
def keywordLeaves : List Token → List Tree
  | [] => []
  | t :: ts => .leaf t.asKeyword :: leavesFor ts

/-- The tree of an item type. That of a kind test has the tokens that its text is cut into. -/
def ItemType.tree : ItemType → Tree
  | .atomic name => .node .atomicType [name.tree]
  | .kindTest _ text => .node .kindTest (keywordLeaves (Token.ofSource text))
  | .anyItem => .node .anyItem [.word "item", .mark .parenOpen '(', .mark .parenClose ')']
  | .emptySequence => .node .emptySequence [.word "empty-sequence", .mark .parenOpen '(', .mark .parenClose ')']

/-- The tree of the mark behind an item type, if it bears one. -/
def Occurrence.trees : Occurrence → List Tree
  | .exactlyOne => []
  | .optional => [.node .occurrence [.mark .question '?']]
  | .zeroOrMore => [.node .occurrence [.mark .star '*']]
  | .oneOrMore => [.node .occurrence [.mark .plus '+']]

/-- The tree of a type declaration. -/
def SequenceType.tree (t : SequenceType) : Tree :=
  .node .typeDecl [.word "as", .node .sequenceType (.space :: t.item.tree :: t.occurrence.trees)]

/-- The tree of a type declaration, if there is one, and the space in front of it. -/
def typeTrees : Option SequenceType → List Tree
  | none => []
  | some t => [.space, t.tree]

/-! ## Trees of declarations -/

/-- The tree of a parameter. -/
def Param.tree (p : Param) : Tree := .node .param (.mark .dollar '$' :: p.name.tree :: typeTrees p.type)

/-- The trees of parameters with commas between. -/
def paramTrees : List Param → List Tree
  | [] => []
  | p :: ps => p.tree :: ps.flatMap fun q => [.mark .comma ',', .space, q.tree]

/-- The tree of a parameter list. -/
def paramListTree (ps : List Param) : Tree := .node .paramList (.mark .parenOpen '(' :: (paramTrees ps ++ [.mark .parenClose ')']))

/-- The tree of the body of a function. -/
def FunctionBody.tree : FunctionBody → Tree
  | .enclosed => .node .enclosedBody [.mark .braceOpen '\x7b', .space, .mark .braceClose '\x7d']
  | .external => .node .externalBody [.word "external"]

/-- The parts of a function. -/
def FunctionDecl.parts (f : FunctionDecl) : List Tree :=
  .word "declare" :: .space :: .word "function" :: .space :: f.name.tree :: paramListTree f.params ::
    (typeTrees f.returnType ++ [.space, f.body.tree, .mark .semicolon ';'])

/-- The tree of a function. -/
def FunctionDecl.tree (f : FunctionDecl) : Tree := .node .functionDecl f.parts

/-- The trees of a word and a literal, if there is a text for it. -/
def clauseTrees (word : String) : Option Quoted → List Tree
  | none => []
  | some l => [.space, .word word, .space, l.tree]

/-- The parts of a version declaration. -/
def versionParts (version encoding : Option Quoted) : List Tree :=
  .word "xquery" :: (clauseTrees "version" version ++ (clauseTrees "encoding" encoding ++ [.mark .semicolon ';']))

/-- The tree of a version declaration. -/
def versionTree (version encoding : Option Quoted) : Tree := .node .versionDecl (versionParts version encoding)

/-- The tree of a version declaration in double marks. -/
def Version.tree (v : Version) : Tree := versionTree (v.version.map (.mk .double)) (v.encoding.map (.mk .double))

/-- The parts of a module declaration. -/
def moduleDeclParts (qualifier : String) (uri : Quoted) : List Tree :=
  [.word "module", .space, .word "namespace", .space, .name qualifier, .space, .mark .equals '=', .space, uri.tree,
    .mark .semicolon ';']

/-- The tree of a module declaration. -/
def moduleDeclTree (qualifier : String) (uri : Quoted) : Tree := .node .moduleDecl (moduleDeclParts qualifier uri)

/-! ## The tree of a module -/

/-- Trees with a space between any two. -/
def spaced : List Tree → List Tree
  | [] => []
  | u :: us => u :: us.flatMap fun v => [.space, v]

/-- A space, if there is to be one. -/
def gap (b : Bool) : List Token := if b then [.space] else []

/-- The trees of a module behind its version declaration. The space behind a module declaration belongs to the prolog, the one behind a
version declaration stands before the node that comes next. -/
def Module.bodyTrees (m : Module) : List Tree :=
  match m.kind with
  | .library qualifier uri =>
    leavesFor (gap m.version.isSome) ++
      [moduleDeclTree qualifier ⟨.double, uri⟩, .node .prolog (m.functions.flatMap fun f => [.space, f.tree])]
  | .main =>
    leavesFor (gap (m.version.isSome && !m.functions.isEmpty)) ++ [.node .prolog (spaced (m.functions.map FunctionDecl.tree))]

/-- The tree of a module. -/
def Module.tree (m : Module) : Tree := .node .root ((m.version.map Version.tree).toList ++ m.bodyTrees)

/-- The trees of the declarations of a module, in order. -/
def Module.declTrees (m : Module) : List Tree :=
  (m.version.map Version.tree).toList ++
    ((match m.kind with
      | .library qualifier uri => [moduleDeclTree qualifier ⟨.double, uri⟩]
      | .main => []) ++ m.functions.map FunctionDecl.tree)

/-- Spaces behind trees and spaces in front of them. -/
theorem tokensOf_spaced (u : Tree) (us : List Tree) : tokensOf (spaced (u :: us)) = u.tokens ++ us.flatMap fun v => .space :: v.tokens := by
  simp [spaced, tokensOf, List.flatMap_assoc]

/-- A module has the tokens of its declarations with spaces between. -/
theorem Module.tokens_tree (m : Module) : m.tree.tokens = tokensOf (spaced m.declTrees) := by
  obtain ⟨version, kind, functions⟩ := m
  cases version with
  | none =>
    cases kind with
    | main => simp [tree, bodyTrees, declTrees, gap, leavesFor]
    | library qualifier uri => simp [tree, bodyTrees, declTrees, gap, leavesFor, spaced, List.flatMap_map]
  | some v =>
    cases kind with
    | main =>
      cases functions with
      | nil => simp [tree, bodyTrees, declTrees, gap, leavesFor, spaced]
      | cons f fs => simp [tree, bodyTrees, declTrees, gap, leavesFor, spaced, Tree.space]
    | library qualifier uri => simp [tree, bodyTrees, declTrees, gap, leavesFor, spaced, List.flatMap_map, Tree.space]

end QueryStubs
