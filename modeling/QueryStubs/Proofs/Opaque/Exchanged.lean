import QueryStubs.Proofs.Segments.Isolated
import QueryStubs.Proofs.Written.Trees

/-!
# What views find where other nodes differ

A node stands behind the trees in front of it (`Node.exists_behind`). If two rows differ in one node only, the views of other kinds find
similar nodes in both (`Node.child?_exchange`). So a declaration declares the same function whatever is in its body, and two modules are the
same up to ranges if their prologs declare the same functions (`Module.ofTree_exchange`).
-/

namespace QueryStubs

open Grammar
open QueryStubs.Tree (constructs leavesOf)

/-! ## Places of nodes -/

/-- Tokens are as long as they were when they were scanned. -/
@[simp] theorem Token.sizeOf_asScanned (ts : List Token) : sizeOf (ts.map asScanned) = sizeOf ts := by
  induction ts with
  | nil => rfl
  | cons t ts ih =>
    have ht : t.asScanned.size = t.size := by
      unfold Token.asScanned
      split <;> rfl
    rw [List.map_cons, sizeOf_cons, sizeOf_cons, ih, ht]

/-- The tokens of trees are their leaves as they were scanned. -/
theorem tokensOf_eq (us : List Tree) : tokensOf us = (leavesOf us).map Token.asScanned := by
  rw [Tree.leavesOf_eq_flatMap, List.map_flatMap]
  rfl

/-- The tokens that trees were made from are as long as the trees. -/
@[simp] theorem sizeOf_tokensOf (us : List Tree) : Token.sizeOf (tokensOf us) = Token.sizeOf (leavesOf us) := by
  rw [tokensOf_eq, Token.sizeOf_asScanned]

namespace Node

/-- A part of a node stands behind the trees in front of it. -/
theorem exists_behind {n m : Node} (h : m ∈ n.nodes) :
    ∃ before after, n.children = before ++ .node m.kind m.children :: after ∧ m.start = n.start + Token.sizeOf (leavesOf before) := by
  obtain ⟨kind, ts, start⟩ := n
  unfold nodes parts at h
  simp only at h ⊢
  induction ts generalizing start with
  | nil => cases h
  | cons t ts ih =>
    cases t with
    | leaf t =>
      obtain ⟨before, after, rfl, hstart⟩ := ih _ h
      refine ⟨.leaf t :: before, after, rfl, ?_⟩
      rw [hstart, Tree.leavesOf, Token.sizeOf_append, Tree.leaves_leaf, Token.sizeOf_cons, Token.sizeOf_nil]
      omega
    | node k us =>
      rcases List.mem_cons.mp h with rfl | h
      · exact ⟨[], ts, rfl, rfl⟩
      · obtain ⟨before, after, rfl, hstart⟩ := ih _ h
        refine ⟨.node k us :: before, after, rfl, ?_⟩
        rw [hstart, Tree.leavesOf, Token.sizeOf_append, Tree.leaves_node]
        omega

/-- A part of a kind stands behind the trees in front of it. -/
theorem exists_behind_of {kind : NodeKind} {n m : Node} (h : m ∈ n.childrenOf kind) :
    ∃ before after, n.children = before ++ .node kind m.children :: after ∧ m.start = n.start + Token.sizeOf (leavesOf before) := by
  obtain ⟨hm, hk⟩ := List.mem_filter.mp h
  rw [← of_decide_eq_true hk]
  exact exists_behind hm

/-- The first part of a kind is where no node in front of it is of the kind. -/
theorem child?_behind {n : Node} {kind : NodeKind} {before us after : List Tree} (h : n.children = before ++ .node kind us :: after)
    (hbefore : ∀ c ∈ constructs before, c.1 ≠ kind) :
    n.child? kind = some ⟨kind, us, n.start + Token.sizeOf (leavesOf before)⟩ := by
  have hnone : ((Part.ofTrees n.start before).filterMap Part.node?).find? (·.kind = kind) = none := by
    refine List.find?_eq_none.mpr fun m hm => ?_
    have hmem : m.construct ∈ constructs before :=
      (⟨kind, before, n.start⟩ : Node).constructs_eq ▸ List.mem_map_of_mem hm
    simpa [construct] using hbefore _ hmem
  rw [child?, nodes, parts, h, Part.ofTrees_append, List.filterMap_append, List.find?_append, hnone]
  simp [Part.ofTrees, Part.node?]

/-- The first part of a kind is similar if nodes of another kind differ. -/
theorem child?_exchange {kind k : NodeKind} (hk : k ≠ kind) {n m : Node} {before us vs after : List Tree}
    (hn : n.children = before ++ .node k us :: after) (hm : m.children = before ++ .node k vs :: after) :
    Option.Rel (SimilarOf (· = kind)) (n.child? kind) (m.child? kind) := by
  have hfind : (n.child? kind).map construct = (m.child? kind).map construct := by
    rw [child?_eq, child?_eq, hn, hm]
    simp [List.find?_append, hk]
  cases ha : n.child? kind with
  | none =>
    rw [ha] at hfind
    rw [Option.map_eq_none_iff.mp hfind.symm]
    exact .none
  | some a =>
    rw [ha] at hfind
    obtain ⟨b, hb, hab⟩ := Option.map_eq_some_iff.mp hfind.symm
    rw [hb]
    have hkinds : b.kind = a.kind := congrArg Prod.fst hab
    have hchildren : b.children = a.children := congrArg Prod.snd hab
    have hkind := List.find?_some (p := fun x : Node => decide (x.kind = kind)) ha
    exact .some ⟨⟨hkinds.symm, by rw [hkinds, hchildren]⟩, hkind⟩

/-- Which function a declaration declares does not depend on what is in its body. -/
theorem toFunctionDecl?_exchange {n m : Node} {before us vs after : List Tree}
    (hn : n.children = before ++ .node .enclosedBody us :: after) (hm : m.children = before ++ .node .enclosedBody vs :: after) :
    n.toFunctionDecl? = m.toFunctionDecl?.map fun f => { f with span := n.span } := by
  refine toFunctionDecl?_of_parts (child?_exchange (by decide) hn hm) (child?_exchange (by decide) hn hm)
    (child?_exchange (by decide) hn hm) ?_
  have hbody : ∀ n : Node, n.functionBody?.map toFunctionBody =
      ((constructs n.children).find? fun c => c.1 = .enclosedBody || c.1 = .externalBody).map
        fun c => if c.1 = .externalBody then .external else .enclosed := by
    intro n
    rw [← find?_eq fun k => k = .enclosedBody || k = .externalBody, Option.map_map]
    rfl
  rw [hbody, hbody, hn, hm]
  simp only [Tree.constructs_append, Tree.constructs_node, List.find?_append]
  cases (constructs before).find? fun c => decide (c.1 = .enclosedBody) || decide (c.1 = .externalBody) <;> simp

end Node

/-! ## Modules with another prolog -/

/-- The functions that are declared in a row of trees, without their ranges. -/
def functionsOf (us : List Tree) : List FunctionDecl := (functionsFrom 0 us).map FunctionDecl.withoutSpan

/-- They are the same wherever the row stands. -/
theorem functionsOf_eq (offset : Nat) (us : List Tree) : (functionsFrom offset us).map FunctionDecl.withoutSpan = functionsOf us := by
  have hone : ∀ (offset : Nat) (t : Tree), (functionsFrom offset [t]).map FunctionDecl.withoutSpan = functionsOf [t] := by
    intro offset t
    cases t with
    | leaf t => rfl
    | node kind us =>
      rw [functionsOf, functionsFrom_moved, List.map_map]
      rfl
  unfold functionsOf
  induction us generalizing offset with
  | nil => rfl
  | cons t us ih =>
    rw [← List.singleton_append, functionsFrom_append, functionsFrom_append 0, List.map_append, List.map_append, hone, ih, ih (0 + _),
      functionsOf]

theorem functionsOf_append (us vs : List Tree) : functionsOf (us ++ vs) = functionsOf us ++ functionsOf vs := by
  rw [functionsOf, functionsFrom_append, List.map_append, functionsOf_eq, functionsOf_eq]

/-- The functions do not change if a tree is replaced by one with the same functions. -/
theorem functionsOf_exchange {t u : Tree} (h : functionsOf [t] = functionsOf [u]) (before after : List Tree) :
    functionsOf (before ++ t :: after) = functionsOf (before ++ u :: after) := by
  have hcons : ∀ t us, functionsOf (t :: us) = functionsOf [t] ++ functionsOf us := fun t us => functionsOf_append [t] us
  rw [functionsOf_append, functionsOf_append, hcons t, hcons u, h]

/-- A node of another kind declares no function. -/
theorem functionsOf_node {kind : NodeKind} (hk : kind ≠ .functionDecl) (us : List Tree) : functionsOf [.node kind us] = [] := by
  simp [functionsOf, functionsFrom, Node.functionDecls, Node.childrenOf, Node.nodes, Node.parts, Part.ofTrees, Part.node?, hk]

/-- Which function is declared does not depend on what is in the body. -/
theorem functionsOf_body (A us vs B : List Tree) :
    functionsOf [.node .functionDecl (A ++ .node .enclosedBody us :: B)] =
      functionsOf [.node .functionDecl (A ++ .node .enclosedBody vs :: B)] := by
  have hdecls : ∀ us, functionsOf [.node .functionDecl us] =
      (((⟨.functionDecl, us, 0⟩ : Node).toFunctionDecl?).map FunctionDecl.withoutSpan).toList := by
    intro us
    simp only [functionsOf, functionsFrom, Node.functionDecls, Node.childrenOf, Node.nodes, Node.parts, Part.ofTrees, Part.node?,
      List.filterMap_cons, List.filterMap_nil, List.filter_cons, List.filter_nil, decide_true, if_true]
    cases (⟨.functionDecl, us, 0⟩ : Node).toFunctionDecl? <;> rfl
  rw [hdecls, hdecls, Node.toFunctionDecl?_exchange (m := ⟨.functionDecl, A ++ .node .enclosedBody vs :: B, 0⟩) rfl rfl, Option.map_map]
  rfl

/-- Modules with other prologs are the same up to ranges if the prologs hold the same functions. -/
theorem Module.ofTree_exchange {front ps qs behind : List Tree} (hfirst : ∀ c ∈ constructs front, c.1 ≠ .prolog)
    (h : functionsOf ps = functionsOf qs) :
    (ofTree (.node .root (front ++ .node .prolog ps :: behind))).withoutSpans =
      (ofTree (.node .root (front ++ .node .prolog qs :: behind))).withoutSpans := by
  have hfunctions : ∀ us, (ofTree (.node .root (front ++ .node .prolog us :: behind))).functions.map FunctionDecl.withoutSpan =
      functionsOf us := by
    intro us
    have hprolog := Node.child?_behind (n := .ofTree (.node .root (front ++ .node .prolog us :: behind))) rfl hfirst
    rw [ofTree, ofNode, Node.prolog?, hprolog]
    exact functionsOf_eq _ us
  exact ofNode_of_parts (Node.child?_exchange (by decide) rfl rfl) (Node.child?_exchange (by decide) rfl rfl)
    ((hfunctions ps).trans (h.trans (hfunctions qs).symm))

end QueryStubs
