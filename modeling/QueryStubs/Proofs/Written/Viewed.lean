import QueryStubs.Proofs.Views.Rows
import QueryStubs.Proofs.Written.Scanned

/-!
# What the views find in the tree of a written module

The parts of a node are found one after the other (`Node.nodes_leaf`, `Node.nodes_node`), wherever the node stands. So each view of a
construct that was written gives back what it was written for, up to `Module.ofTree_tree`: only the ranges of the functions are new.
-/

namespace QueryStubs

open Grammar (leavesFor)
open Token (charsOf)

/-! ## Parts one after the other -/

namespace Node

variable {kind : NodeKind} {start : Nat}

@[simp] theorem nodes_nil : nodes ⟨kind, [], start⟩ = [] := rfl

/-- A token is no part that is a node. -/
@[simp] theorem nodes_leaf (t : Token) (us : List Tree) : nodes ⟨kind, .leaf t :: us, start⟩ = nodes ⟨kind, us, start + t.size⟩ := rfl

/-- A node is a part where it starts, and the parts behind it start where it ends. -/
@[simp] theorem nodes_node (kind' : NodeKind) (vs us : List Tree) :
    nodes ⟨kind, .node kind' vs :: us, start⟩ = ⟨kind', vs, start⟩ :: nodes ⟨kind, us, start + Token.sizeOf (Tree.leavesOf vs)⟩ := rfl

end Node

/-! ## Names, literals and types -/

/-- The name that was written is read from its node. -/
theorem QName.viewed (n : QName) (start : Nat) : Node.toQName? ⟨.qname, leavesFor n.tokens, start⟩ = some n := by
  obtain ⟨_ | p, l⟩ := n <;> simp [Node.toQName?, Node.localPart?, Node.qualifier?, Node.nameTexts, tokens, Token.ofName, Token.ofMark]

/-- The mark and the text between the marks are found in a literal. -/
theorem Quoted.found (l : Quoted) (start : Nat) :
    Node.quote? ⟨.str, leavesFor l.tokens, start⟩ = some l.quote ∧
      Node.rawLiteral? ⟨.str, leavesFor l.tokens, start⟩ =
        if l.text = "" then none else some (String.ofList (Text.doubled l.quote.char l.text.toList)) := by
  obtain ⟨q, s⟩ := l
  unfold Node.quote? Node.rawLiteral?
  rw [Node.tokens_leavesFor, tokens, Token.ofBody_doubled]
  refine ⟨by cases q <;> rfl, ?_⟩
  split <;> cases q <;> rfl

/-- A literal stands for the text it was written for. -/
theorem Quoted.viewed (l : Quoted) (start : Nat) : Node.literalValue ⟨.str, leavesFor l.tokens, start⟩ = l.text := by
  obtain ⟨hquote, hraw⟩ := l.found start
  unfold Node.literalValue
  rw [hquote, hraw]
  by_cases hl : l.text = ""
  · rw [if_pos hl, hl]
  · rw [if_neg hl]
    simp only [Option.getD_some, String.toList_ofList]
    rw [Text.collapse_doubled, String.ofList_toList]

/-- The written form of a kind test is found in its tree. -/
theorem KindTest.viewed (k : KindTest) (names : List QName) (start : Nat) :
    Node.toItemType? ⟨.kindTest, keywordLeaves (k.tokens names), start⟩ = some (.kindTest k (k.source names)) := by
  have hkeyword : Node.testKeyword? ⟨.kindTest, keywordLeaves (k.tokens names), start⟩ = some k.keyword := rfl
  have hof : KindTest.ofKeyword? k.keyword = some k := by cases k <;> decide
  have htext : Node.compactText ⟨.kindTest, keywordLeaves (k.tokens names), start⟩ = k.source names := by
    have hleaves : Node.leaves ⟨.kindTest, keywordLeaves (k.tokens names), start⟩ =
        (Token.ofName k.keyword).asKeyword :: .ofMark .parenOpen '(' :: (argumentTokens names ++ [.ofMark .parenClose ')']) := by
      simp [Node.leaves, keywordLeaves, tokens, leavesFor, Tree.leavesOf]
    have hplain : ∀ t ∈ (Token.ofName k.keyword).asKeyword :: .ofMark .parenOpen '(' :: (argumentTokens names ++ [.ofMark .parenClose ')']),
        (!t.isTrivia) = true := by
      intro t ht
      simp only [List.mem_cons, List.mem_append, List.not_mem_nil, or_false] at ht
      rcases ht with rfl | rfl | ht | rfl
      · rfl
      · rfl
      · rcases kind_of_mem_arguments ht with h | h | h <;> simp [Token.isTrivia, h, TokenKind.isTrivia]
      · rfl
    refine String.toList_inj.mp ?_
    rw [Node.compactText, Token.toList_textOf, hleaves, List.filter_eq_self.mpr hplain, ← KindTest.chars_tokens]
    rfl
  unfold Node.toItemType?
  simp [hkeyword, hof, htext]

/-- The tree of an item type is a node from which the item type can be told. -/
theorem ItemType.viewed {t : ItemType} (ht : t.Writable) :
    ∃ kind us, t.tree = .node kind us ∧ kind ≠ .occurrence ∧
      ∀ start, Node.isItemType ⟨kind, us, start⟩ = true ∧ Node.toItemType? ⟨kind, us, start⟩ = some t := by
  cases t with
  | atomic n =>
    refine ⟨.atomicType, [n.tree], rfl, by decide, fun start => ⟨rfl, ?_⟩⟩
    have hname : Node.qname? ⟨.atomicType, [n.tree], start⟩ = some ⟨.qname, leavesFor n.tokens, start⟩ := rfl
    unfold Node.toItemType?
    simp [hname, n.viewed]
  | kindTest k s =>
    obtain ⟨names, hn, rfl⟩ := ht
    rw [tree, KindTest.ofSource_source hn]
    exact ⟨_, _, rfl, by decide, fun start => ⟨rfl, k.viewed names start⟩⟩
  | anyItem => exact ⟨_, _, rfl, by decide, fun _ => ⟨rfl, rfl⟩⟩
  | emptySequence => exact ⟨_, _, rfl, by decide, fun _ => ⟨rfl, rfl⟩⟩

/-- The type that was written is read from its node. -/
theorem SequenceType.viewed {t : SequenceType} (ht : t.Writable) (start : Nat) :
    Node.toSequenceType? ⟨.sequenceType, .space :: t.item.tree :: t.occurrence.trees, start⟩ = some t := by
  obtain ⟨item, occurrence⟩ := t
  obtain ⟨kind, us, htree, hkind, hview⟩ := ItemType.viewed ht.1
  simp only at htree hview
  have hitem : Node.itemType? ⟨.sequenceType, .space :: item.tree :: occurrence.trees, start⟩ =
      some ⟨kind, us, start + Token.size .space⟩ := by
    rw [htree, Node.itemType?, Tree.space, Node.nodes_leaf, Node.nodes_node, List.find?_cons_of_pos (hview _).1]
  have hmark : Node.toOccurrence? ⟨.sequenceType, .space :: item.tree :: occurrence.trees, start⟩ = some occurrence := by
    unfold Node.toOccurrence? Node.child?
    rw [htree, Tree.space, Node.nodes_leaf, Node.nodes_node, List.find?_cons_of_neg (by simp [hkind])]
    cases occurrence <;> rfl
  unfold Node.toSequenceType?
  rw [hitem, hmark]
  simp [(hview _).2]

/-- The type that a node declares is found behind parts that declare none. -/
theorem declared_viewed {t : Option SequenceType} (ht : ∀ u ∈ t, u.Writable) {n : Node} {before behind : List Node}
    {kind : NodeKind} {start : Nat} (hn : n.nodes = before ++ (Node.nodes ⟨kind, typeTrees t, start⟩ ++ behind))
    (hbefore : ∀ m ∈ before, m.kind ≠ .typeDecl) (hbehind : ∀ m ∈ behind, m.kind ≠ .typeDecl) :
    n.toDeclaredType? = some t := by
  have hnone : ∀ ms : List Node, (∀ m ∈ ms, m.kind ≠ .typeDecl) → ms.find? (fun m => decide (m.kind = .typeDecl)) = none := by
    intro ms hms
    exact List.find?_eq_none.mpr fun m hm => by simp [hms m hm]
  unfold Node.toDeclaredType? Node.typeDecl? Node.child?
  rw [hn, List.find?_append, hnone before hbefore, Option.none_or]
  cases t with
  | none =>
    rw [typeTrees, Node.nodes_nil, List.nil_append, hnone behind hbehind]
  | some t =>
    have hview := SequenceType.viewed (ht t rfl)
    rw [typeTrees, Tree.space, SequenceType.tree, Node.nodes_leaf, Node.nodes_node, List.cons_append]
    simp [Node.sequenceType?, Node.child?, Tree.word, hview]

/-- The nodes of a type declaration are type declarations. -/
theorem kind_of_mem_typeTrees {t : Option SequenceType} {kind : NodeKind} {start : Nat} {n : Node}
    (h : n ∈ Node.nodes ⟨kind, typeTrees t, start⟩) : n.kind = .typeDecl := by
  cases t with
  | none => cases h
  | some t =>
    rw [List.mem_singleton.mp h]

/-- Parts behind a type declaration are found behind its nodes. -/
theorem nodes_typeTrees (t : Option SequenceType) (kind : NodeKind) (us : List Tree) (start : Nat) :
    ∃ start', Node.nodes ⟨kind, typeTrees t ++ us, start⟩ =
      Node.nodes ⟨kind, typeTrees t, start⟩ ++ Node.nodes ⟨kind, us, start'⟩ := by
  cases t with
  | none => exact ⟨start, rfl⟩
  | some t => exact ⟨_, rfl⟩

/-! ## Declarations -/

/-- The parameter that was written is read from its node. -/
theorem Param.viewed {p : Param} (hp : p.Writable) (start : Nat) :
    Node.toParam? ⟨.param, .mark .dollar '$' :: p.name.tree :: typeTrees p.type, start⟩ = some p := by
  have hname : Node.qname? ⟨.param, .mark .dollar '$' :: p.name.tree :: typeTrees p.type, start⟩ =
      some ⟨.qname, leavesFor p.name.tokens, start + Token.size (.ofMark .dollar '$')⟩ := rfl
  have htype : Node.toDeclaredType? ⟨.param, .mark .dollar '$' :: p.name.tree :: typeTrees p.type, start⟩ = some p.type := by
    have hnodes : ∃ s₁ s₂, Node.nodes ⟨.param, .mark .dollar '$' :: p.name.tree :: typeTrees p.type, start⟩ =
        [⟨.qname, leavesFor p.name.tokens, s₁⟩] ++ (Node.nodes ⟨.param, typeTrees p.type, s₂⟩ ++ []) := by
      simp only [List.append_nil]
      exact ⟨_, _, rfl⟩
    obtain ⟨s₁, s₂, hnodes⟩ := hnodes
    exact declared_viewed hp.2 hnodes (by simp) (by simp)
  unfold Node.toParam?
  simp [hname, htype, p.name.viewed]

/-- Every parameter of a list is found in it. -/
theorem paramTrees_viewed {ps : List Param} (hps : ∀ p ∈ ps, p.Writable) (start : Nat) :
    (Node.childrenOf .param ⟨.paramList, .mark .parenOpen '(' :: (paramTrees ps ++ [.mark .parenClose ')']), start⟩).mapM Node.toParam? =
      some ps := by
  have hbehind : ∀ (ps : List Param), (∀ p ∈ ps, p.Writable) → ∀ start,
      (Node.childrenOf .param ⟨.paramList, (ps.flatMap fun q => [.mark .comma ',', .space, q.tree]) ++ [.mark .parenClose ')'],
        start⟩).mapM Node.toParam? = some ps := by
    intro ps hps
    induction ps with
    | nil => exact fun _ => rfl
    | cons q ps ih =>
      intro start
      have hrest := ih fun p hp => hps p (List.mem_cons_of_mem _ hp)
      have hq := Param.viewed (hps q (List.mem_cons_self ..))
      unfold Node.childrenOf at hrest ⊢
      simp only [List.flatMap_cons, List.cons_append, List.nil_append, Tree.mark, Tree.space, Node.nodes_leaf, Param.tree,
        Node.nodes_node, decide_true, List.filter_cons_of_pos, List.mapM_cons] at hrest hq ⊢
      simp [hrest, hq]
  unfold Node.childrenOf
  cases ps with
  | nil => rfl
  | cons p ps =>
    have hrest := hbehind ps fun q hq => hps q (List.mem_cons_of_mem _ hq)
    have hp := Param.viewed (hps p (List.mem_cons_self ..))
    unfold Node.childrenOf at hrest
    simp only [paramTrees, List.cons_append, Tree.mark, Node.nodes_leaf, Param.tree, Node.nodes_node, decide_true,
      List.filter_cons_of_pos, List.mapM_cons] at hrest hp ⊢
    simp [hrest, hp]

/-- The body that was written is read from its node, which is no other part of a function. -/
theorem FunctionBody.viewed (b : FunctionBody) :
    ∃ kind us, b.tree = .node kind us ∧ kind ≠ .typeDecl ∧
      ∀ start, Node.isFunctionBody ⟨kind, us, start⟩ = true ∧ Node.toFunctionBody ⟨kind, us, start⟩ = b := by
  cases b with
  | enclosed => exact ⟨_, _, rfl, by decide, fun _ => ⟨rfl, rfl⟩⟩
  | external => exact ⟨_, _, rfl, by decide, fun _ => ⟨rfl, rfl⟩⟩

/-- The function that was written is read from its node, up to where it stands. -/
theorem FunctionDecl.viewed {f : FunctionDecl} (hf : f.Writable) (start : Nat) :
    ∃ span, Node.toFunctionDecl? ⟨.functionDecl, f.parts, start⟩ = some { f with span } := by
  obtain ⟨kind, us, hbody, hkind, hview⟩ := f.body.viewed
  have hnodes : ∃ s₁ s₂ s₃, Node.nodes ⟨.functionDecl, f.parts, start⟩ = ⟨.qname, leavesFor f.name.tokens, s₁⟩ ::
      ⟨.paramList, .mark .parenOpen '(' :: (paramTrees f.params ++ [.mark .parenClose ')']), s₂⟩ ::
        Node.nodes ⟨.functionDecl, typeTrees f.returnType ++ [.space, f.body.tree, .mark .semicolon ';'], s₃⟩ := ⟨_, _, _, rfl⟩
  obtain ⟨s₁, s₂, s₃, hnodes⟩ := hnodes
  obtain ⟨s₄, hrest⟩ := nodes_typeTrees f.returnType .functionDecl [.space, f.body.tree, .mark .semicolon ';'] s₃
  have hlast : ∃ s₅, Node.nodes ⟨.functionDecl, [.space, f.body.tree, .mark .semicolon ';'], s₄⟩ = [⟨kind, us, s₅⟩] := by
    rw [hbody]
    exact ⟨_, rfl⟩
  obtain ⟨s₅, hlast⟩ := hlast
  rw [hrest, hlast] at hnodes
  have htypes : ∀ m ∈ Node.nodes ⟨.functionDecl, typeTrees f.returnType, s₃⟩, Node.isFunctionBody m = false := by
    intro m hm
    simp [Node.isFunctionBody, kind_of_mem_typeTrees hm]
  have hname : Node.qname? ⟨.functionDecl, f.parts, start⟩ = some ⟨.qname, leavesFor f.name.tokens, s₁⟩ := by
    rw [Node.qname?, Node.child?, hnodes]
    rfl
  have hparams : Node.params ⟨.functionDecl, f.parts, start⟩ =
      Node.childrenOf .param ⟨.paramList, .mark .parenOpen '(' :: (paramTrees f.params ++ [.mark .parenClose ')']), s₂⟩ := by
    rw [Node.params, Node.paramList?, Node.child?, hnodes]
    rfl
  have htype : Node.toDeclaredType? ⟨.functionDecl, f.parts, start⟩ = some f.returnType := by
    have hsplit : Node.nodes ⟨.functionDecl, f.parts, start⟩ = [⟨.qname, leavesFor f.name.tokens, s₁⟩,
        ⟨.paramList, .mark .parenOpen '(' :: (paramTrees f.params ++ [.mark .parenClose ')']), s₂⟩] ++
          (Node.nodes ⟨.functionDecl, typeTrees f.returnType, s₃⟩ ++ [⟨kind, us, s₅⟩]) := hnodes
    exact declared_viewed hf.returnType hsplit (by simp) (by simp [hkind])
  have hfound : Node.functionBody? ⟨.functionDecl, f.parts, start⟩ = some ⟨kind, us, s₅⟩ := by
    have hnone : (Node.nodes ⟨.functionDecl, typeTrees f.returnType, s₃⟩).find? Node.isFunctionBody = none :=
      List.find?_eq_none.mpr fun m hm => by simp [htypes m hm]
    rw [Node.functionBody?, hnodes, List.find?_cons_of_neg (by simp [Node.isFunctionBody]),
      List.find?_cons_of_neg (by simp [Node.isFunctionBody]), List.find?_append, hnone, Option.none_or,
      List.find?_cons_of_pos (hview s₅).1]
  refine ⟨Node.span ⟨.functionDecl, f.parts, start⟩, ?_⟩
  unfold Node.toFunctionDecl?
  simp [hname, f.name.viewed, hparams, paramTrees_viewed hf.params, htype, hfound, (hview s₅).2]

/-- The clauses that were written are read from the node of a version declaration. -/
theorem versionTree_viewed (version encoding : Option Quoted) (start : Nat) :
    Node.toVersion ⟨.versionDecl, versionParts version encoding, start⟩ = ⟨version.map Quoted.text, encoding.map Quoted.text⟩ := by
  have hversion : (Node.version? ⟨.versionDecl, versionParts version encoding, start⟩).map Node.literalValue =
      version.map Quoted.text := by
    cases version with
    | none => cases encoding <;> rfl
    | some l =>
      have hfound : ∃ start', Node.version? ⟨.versionDecl, versionParts (some l) encoding, start⟩ =
          some ⟨.str, leavesFor l.tokens, start'⟩ := ⟨_, rfl⟩
      obtain ⟨start', hfound⟩ := hfound
      rw [hfound, Option.map_some, l.viewed, Option.map_some]
  have hencoding : (Node.encoding? ⟨.versionDecl, versionParts version encoding, start⟩).map Node.literalValue =
      encoding.map Quoted.text := by
    cases encoding with
    | none => cases version <;> rfl
    | some l =>
      have hfound : ∃ start', Node.encoding? ⟨.versionDecl, versionParts version (some l), start⟩ =
          some ⟨.str, leavesFor l.tokens, start'⟩ := by cases version <;> exact ⟨_, rfl⟩
      obtain ⟨start', hfound⟩ := hfound
      rw [hfound, Option.map_some, l.viewed, Option.map_some]
  rw [Node.toVersion, hversion, hencoding]

/-- A module declaration gives its prefix and its URI. -/
theorem moduleDecl_viewed (qualifier : String) (uri : Quoted) (start : Nat) :
    Node.boundPrefix? ⟨.moduleDecl, moduleDeclParts qualifier uri, start⟩ = some qualifier ∧
      (Node.uri? ⟨.moduleDecl, moduleDeclParts qualifier uri, start⟩).elim "" Node.literalValue = uri.text := by
  refine ⟨rfl, ?_⟩
  have hfound : ∃ start', Node.uri? ⟨.moduleDecl, moduleDeclParts qualifier uri, start⟩ =
      some ⟨.str, leavesFor uri.tokens, start'⟩ := ⟨_, rfl⟩
  obtain ⟨start', hfound⟩ := hfound
  rw [hfound, Option.elim_some, uri.viewed]

/-! ## Modules -/

/-- Every function behind a space is found in a prolog. -/
theorem functions_viewed {fs : List FunctionDecl} (hfs : ∀ f ∈ fs, f.Writable) (start : Nat) :
    ((Node.functionDecls ⟨.prolog, fs.flatMap fun f => [.space, f.tree], start⟩).filterMap Node.toFunctionDecl?).map
      FunctionDecl.withoutSpan = fs.map FunctionDecl.withoutSpan := by
  unfold Node.functionDecls Node.childrenOf
  induction fs generalizing start with
  | nil => rfl
  | cons f fs ih =>
    obtain ⟨span, hf⟩ := FunctionDecl.viewed (hfs f (List.mem_cons_self ..)) (start + Token.size .space)
    have hrest := ih fun g hg => hfs g (List.mem_cons_of_mem _ hg)
    simp only [List.flatMap_cons, List.cons_append, List.nil_append, Tree.space, FunctionDecl.tree, Node.nodes_leaf, Node.nodes_node,
      decide_true, List.filter_cons_of_pos, List.filterMap_cons, hf, List.map_cons] at hrest ⊢
    rw [hrest]
    rfl

/-- So is every function between spaces. -/
theorem functions_viewed_spaced {fs : List FunctionDecl} (hfs : ∀ f ∈ fs, f.Writable) (start : Nat) :
    ((Node.functionDecls ⟨.prolog, spaced (fs.map FunctionDecl.tree), start⟩).filterMap Node.toFunctionDecl?).map
      FunctionDecl.withoutSpan = fs.map FunctionDecl.withoutSpan := by
  cases fs with
  | nil => rfl
  | cons f fs =>
    obtain ⟨span, hf⟩ := FunctionDecl.viewed (hfs f (List.mem_cons_self ..)) start
    have hrest := functions_viewed fun g hg => hfs g (List.mem_cons_of_mem f hg)
    unfold Node.functionDecls Node.childrenOf at hrest ⊢
    simp only [List.map_cons, spaced, List.flatMap_map, FunctionDecl.tree, Node.nodes_node, decide_true, List.filter_cons_of_pos,
      List.filterMap_cons, hf] at hrest ⊢
    rw [hrest]
    rfl

namespace Module

/-- The version that was written is read from the tree of the module. -/
theorem version_ofTree (m : Module) : (ofTree m.tree).version = m.version := by
  obtain ⟨version, kind, functions⟩ := m
  cases version with
  | none =>
    cases kind with
    | library qualifier uri => rfl
    | main => rfl
  | some v =>
    have hfound : Node.versionDecl? (.ofTree (tree ⟨some v, kind, functions⟩)) =
        some ⟨.versionDecl, versionParts (v.version.map (.mk .double)) (v.encoding.map (.mk .double)), 0⟩ := rfl
    obtain ⟨version, encoding⟩ := v
    rw [ofTree, ofNode, hfound, Option.map_some, versionTree_viewed, Option.map_map, Option.map_map]
    simp [Function.comp_def]

/-- The kind of module that was written is read from its tree. -/
theorem kind_ofTree (m : Module) : (ofTree m.tree).kind = m.kind := by
  obtain ⟨version, kind, functions⟩ := m
  cases kind with
  | library qualifier uri =>
    have hfound : ∃ start, Node.moduleDecl? (.ofTree (tree ⟨version, .library qualifier uri, functions⟩)) =
        some ⟨.moduleDecl, moduleDeclParts qualifier ⟨.double, uri⟩, start⟩ := by
      cases version <;> exact ⟨_, rfl⟩
    obtain ⟨start, hfound⟩ := hfound
    obtain ⟨hqualifier, huri⟩ := moduleDecl_viewed qualifier ⟨.double, uri⟩ start
    rw [ofTree, ofNode, Node.toModuleKind, hfound]
    simp only
    rw [hqualifier, huri, Option.getD_some]
  | main =>
    have hnone : Node.moduleDecl? (.ofTree (tree ⟨version, .main, functions⟩)) = none := by
      cases version with
      | none => rfl
      | some v => cases functions <;> rfl
    rw [ofTree, ofNode, Node.toModuleKind, hnone]

/-- The functions that were written are read from the tree of the module, up to where they stand. -/
theorem functions_ofTree {m : Module} (hm : m.Writable) :
    (ofTree m.tree).functions.map FunctionDecl.withoutSpan = m.functions.map FunctionDecl.withoutSpan := by
  have hfunctions := hm.functions
  obtain ⟨version, kind, functions⟩ := m
  cases kind with
  | library qualifier uri =>
    have hfound : ∃ start, Node.prolog? (.ofTree (tree ⟨version, .library qualifier uri, functions⟩)) =
        some ⟨.prolog, functions.flatMap fun f => [.space, f.tree], start⟩ := by
      cases version <;> exact ⟨_, rfl⟩
    obtain ⟨start, hfound⟩ := hfound
    rw [ofTree, ofNode, hfound]
    exact functions_viewed hfunctions start
  | main =>
    have hfound : ∃ start, Node.prolog? (.ofTree (tree ⟨version, .main, functions⟩)) =
        some ⟨.prolog, spaced (functions.map FunctionDecl.tree), start⟩ := by
      cases version with
      | none => exact ⟨_, rfl⟩
      | some v => cases functions <;> exact ⟨_, rfl⟩
    obtain ⟨start, hfound⟩ := hfound
    rw [ofTree, ofNode, hfound]
    exact functions_viewed_spaced hfunctions start

/-- The tree of a written module holds the module. -/
theorem ofTree_tree {m : Module} (hm : m.Writable) : (ofTree m.tree).withoutSpans = m.withoutSpans := by
  have hversion := version_ofTree m
  have hkind := kind_ofTree m
  have hfunctions := functions_ofTree hm
  unfold withoutSpans
  rw [hversion, hkind]
  exact congrArg (Module.mk m.version m.kind) hfunctions

end Module

end QueryStubs
