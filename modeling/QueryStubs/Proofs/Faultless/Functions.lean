import QueryStubs.Proofs.Faultless.Signatures
import QueryStubs.Proofs.Suppression.First
import QueryStubs.Proofs.Syntax.Accepted

/-!
# No function is lost

A source without errors has the tree that the form of modules builds of it (`Parsed.makes_tree`). In this tree there is no error node, each
declaration ends with its semicolon, and each function declaration can be read, so that the module has one function for each of them
(`Module.parse_keeps_functions`).
-/

namespace QueryStubs

open Grammar (Form leavesFor)
open QueryStubs.Tree (constructs)

/-- The parts of a node are its tokens and its nodes. -/
theorem Node.mem_parts {n : Node} {p : Part} (h : p ∈ n.parts) :
    (∃ t ∈ n.tokens, p = .token t) ∨ ∃ m ∈ n.nodes, p = .node m := by
  cases p with
  | token t => exact .inl ⟨t, List.mem_filterMap.mpr ⟨_, h, rfl⟩, rfl⟩
  | node m => exact .inr ⟨m, List.mem_filterMap.mpr ⟨_, h, rfl⟩, rfl⟩

namespace Grammar

/-- One of several forms. -/
theorem Form.makes_anyOf {fs : List Form} {ts : List Tree} (h : (Form.anyOf fs).Makes ts) : ∃ f ∈ fs, f.Makes ts := by
  induction fs with
  | nil =>
    obtain ⟨w, t, -, hp, -⟩ := h
    cases hp
  | cons f fs ih =>
    rcases h with h | h
    · exact ⟨f, List.mem_cons_self .., h⟩
    · obtain ⟨g, hg, h⟩ := ih h
      exact ⟨g, List.mem_cons_of_mem _ hg, h⟩

/-- The kinds of declarations in a prolog. -/
def declKinds : List NodeKind := Form.setterKinds ++ Form.otherKinds

/-- What a declaration of a kind is made of. -/
def DeclMade (kind : NodeKind) (ts : List Tree) : Prop := (Form.seq (.declBody kind) (.mark .semicolon)).Makes ts

/-- A row of declarations of known kinds with nothing but trivia between them. -/
def DeclsMade (ts : List Tree) : Prop :=
  Token.AllTrivia (Tree.ownTokens ts) ∧ ∀ c ∈ constructs ts, c.1 ∈ declKinds ∧ DeclMade c.1 c.2

/-- Rows of declarations can be joined. -/
theorem DeclsMade.append {ts us : List Tree} (h : DeclsMade ts) (h' : DeclsMade us) : DeclsMade (ts ++ us) := by
  unfold DeclsMade Token.AllTrivia
  rw [Tree.ownTokens_append, Tree.constructs_append]
  exact ⟨List.forall_mem_append.mpr ⟨h.1, h'.1⟩, List.forall_mem_append.mpr ⟨h.2, h'.2⟩⟩

/-- The form of some declarations makes such a row. -/
theorem declsMade_of_many {kinds : List NodeKind} (hkinds : ∀ kind ∈ kinds, kind ∈ declKinds) {ts : List Tree}
    (h : (Form.many (.declOf kinds)).Makes ts) : DeclsMade ts := by
  obtain ⟨rows, rfl, hrows⟩ := h
  induction rows with
  | nil => exact ⟨.nil, List.forall_mem_nil _⟩
  | cons row rows ih =>
    obtain ⟨hrow, hrows⟩ := List.forall_mem_cons.mp hrows
    refine .append ?_ (ih hrows)
    obtain ⟨f, hf, hmade⟩ := Form.makes_anyOf hrow
    obtain ⟨kind, hkind, rfl⟩ := List.mem_map.mp hf
    obtain ⟨w, us, hw, rfl, hus, -⟩ := hmade
    refine ⟨by simpa [Tree.ownTokens] using hw, ?_⟩
    rw [Tree.constructs_append, Tree.constructs_leavesFor]
    exact fun c hc => List.mem_singleton.mp hc ▸ ⟨hkinds kind hkind, hus⟩

/-- So does the form of a prolog. -/
theorem declsMade_of_prolog {ts : List Tree} (h : Form.prolog.Makes ts) : DeclsMade ts := by
  obtain ⟨us, vs, rfl, hsetters, hothers⟩ := h
  exact (declsMade_of_many (fun _ hk => List.mem_append_left _ hk) hsetters).append
    (declsMade_of_many (fun _ hk => List.mem_append_right _ hk) hothers)

/-- A declaration ends with its semicolon. -/
theorem DeclMade.getLast? {kind : NodeKind} {ts : List Tree} (h : DeclMade kind ts) :
    ∃ t, ts.getLast? = some (.leaf t) ∧ t.kind = .semicolon := by
  obtain ⟨us, _, rfl, -, w, t, -, ht, -, rfl⟩ := h
  exact ⟨t, by simp, of_decide_eq_true ht⟩

/-- A function declaration is nowhere inside a declaration. -/
theorem DeclMade.no_function {kind : NodeKind} {ts : List Tree} (h : DeclMade kind ts) (hk : kind ∈ declKinds) :
    .functionDecl ∉ Tree.kindsOf ts := by
  have hkinds : ∀ kind ∈ declKinds, .functionDecl ∉ (Form.seq (.declBody kind) (.mark .semicolon)).kinds := by decide
  exact fun hmem => hkinds kind hk (h.kinds _ hmem)

/-- A construct that is no prolog, with no function declaration in it. -/
def Aside (c : NodeKind × List Tree) : Prop := c.1 ≠ .prolog ∧ .functionDecl ∉ c.1 :: Tree.kindsOf c.2

/-- The parts of a module: one prolog, and others aside. -/
theorem prolog_of_makes {ts : List Tree} (h : Form.whole.Makes ts) :
    ∃ us before prolog behind, ts = [.node .root us] ∧ constructs us = before ++ (.prolog, prolog) :: behind ∧ DeclsMade prolog ∧
      ∀ c ∈ before ++ behind, Aside c := by
  have haside : ∀ {f : Form} {us}, f.Makes us → .prolog ∉ f.kinds → .functionDecl ∉ f.kinds → ∀ c ∈ constructs us, Aside c := by
    intro f us hf hp hk c hc
    refine ⟨fun he => hp (hf.kinds _ (Tree.mem_kindsOf hc ?_)), fun hm => hk (hf.kinds _ (Tree.mem_kindsOf hc hm))⟩
    exact he ▸ List.mem_cons_self ..
  obtain ⟨_, rfl, version, _, rfl, hversion, rest, tail, rfl, hrest, htail⟩ := h
  have hversion := haside hversion (by decide) (by decide)
  rcases hrest with ⟨decl, _, rfl, hdecl, prolog, rfl, hprolog⟩ | ⟨_, body, rfl, hprolog, hbody⟩
  · have hdecl := haside hdecl (by decide) (by decide)
    refine ⟨_, constructs version ++ constructs decl, prolog, [], rfl, by simp [htail.flat rfl], declsMade_of_prolog hprolog, ?_⟩
    rw [List.append_nil]
    exact List.forall_mem_append.mpr ⟨hversion, hdecl⟩
  · obtain ⟨prolog, hc, hmade, -⟩ := hprolog.node
    have hbody := haside hbody (by decide) (by decide)
    exact ⟨_, constructs version, prolog, constructs body, rfl, by simp [htail.flat rfl, hc], declsMade_of_prolog hmade,
      List.forall_mem_append.mpr ⟨hversion, hbody⟩⟩

end Grammar

open Grammar

/-- A source without errors has a tree that the form of modules makes. -/
theorem Parsed.makes_tree {source : String} (h : (ofSource source).hasErrors = false) :
    Form.whole.Makes [(ofSource source).tree] := by
  obtain ⟨o, hb, -⟩ := builds_of_faultless h
  exact hb.makes (start_lexical source)

/-- The declarations in a prolog end with their semicolons, and nothing but trivia stand between them. -/
theorem Node.ended_of_makes {prolog : Node} (h : DeclsMade prolog.children) :
    ∀ p ∈ prolog.parts, p.isTrivia = true ∨ ∃ n t, p = .node n ∧ n.children.getLast? = some (.leaf t) ∧ t.kind = .semicolon := by
  intro p hp
  rcases Node.mem_parts hp with ⟨t, ht, rfl⟩ | ⟨n, hn, rfl⟩
  · exact .inl (h.1 t (prolog.tokens_eq ▸ ht))
  · have hmem : n.construct ∈ constructs prolog.children := prolog.constructs_eq ▸ List.mem_map_of_mem hn
    obtain ⟨t, ht, hk⟩ := (h.2 _ hmem).2.getLast?
    exact .inr ⟨n, t, rfl, ht, hk⟩

/-- Every function declaration in a prolog can be read. -/
theorem Node.functions_of_makes {prolog : Node} (h : DeclsMade prolog.children) :
    ∀ n ∈ prolog.functionDecls, ∃ f, n.toFunctionDecl? = some f ∧ n.YieldsFunction f := by
  intro n hn
  obtain ⟨hn, hk⟩ := List.mem_filter.mp hn
  have hmem : n.construct ∈ constructs prolog.children := prolog.constructs_eq ▸ List.mem_map_of_mem hn
  have hmade := (h.2 _ hmem).2
  rw [construct, of_decide_eq_true hk] at hmade
  exact (function_of_makes hmade).imp fun f hf => ⟨hf.read, hf⟩

/-- The function declarations in a prolog are parts of it. -/
theorem Node.count_of_makes {prolog : Node} (h : DeclsMade prolog.children) :
    (Tree.kindsOf prolog.children).count .functionDecl = prolog.functionDecls.length := by
  rw [Tree.count_kindsOf fun c hc => (h.2 c hc).2.no_function (h.2 c hc).1, ← childrenOf_eq, List.length_map]
  rfl

/-- The prolog of a source without errors is a row of declarations. -/
theorem Parsed.prolog_of_faultless {source : String} (h : (ofSource source).hasErrors = false) :
    ∃ prolog, (ofSource source).root.prolog? = some prolog ∧ DeclsMade prolog.children := by
  obtain ⟨us, before, ps, behind, htree, hc, hdecls, haside⟩ := prolog_of_makes (makes_tree h)
  have htree : (ofSource source).tree = .node .root us := List.singleton_inj.mp htree
  have hnone : before.find? (·.1 = .prolog) = none :=
    List.find?_eq_none.mpr fun c hm => by simp [(haside c (List.mem_append_left _ hm)).1]
  have hfind : (constructs (ofSource source).root.children).find? (·.1 = .prolog) = some (.prolog, ps) := by
    rw [root, htree, Node.ofTree, hc, List.find?_append, hnone]
    rfl
  obtain ⟨prolog, hprolog, rfl⟩ := Node.child?_of_find hfind
  exact ⟨prolog, hprolog, hdecls⟩

/-- No function is lost. Where a source has no error, its tree has no error node, each declaration of its prolog ends with a semicolon, and
the module that is read has one function for each function declaration of the tree, all of them parts of the prolog, in order, with one
parameter for each parameter of the declaration and types just where they are declared. -/
theorem Module.parse_keeps_functions (source : String) (h : (Parsed.ofSource source).hasErrors = false) :
    .error ∉ (Parsed.ofSource source).tree.kinds ∧
      ∃ prolog m, (Parsed.ofSource source).root.prolog? = some prolog ∧ Module.parse source = .ok m ∧
        (∀ p ∈ prolog.parts, p.isTrivia = true ∨ ∃ n t, p = .node n ∧ n.children.getLast? = some (.leaf t) ∧ t.kind = .semicolon) ∧
          (Parsed.ofSource source).tree.kinds.count .functionDecl = prolog.functionDecls.length ∧
            List.Forall₂ Node.YieldsFunction prolog.functionDecls m.functions := by
  have hmakes := Parsed.makes_tree h
  have herror : .error ∉ (Parsed.ofSource source).tree.kinds := by
    intro hm
    have hmem : .error ∈ Tree.kindsOf [(Parsed.ofSource source).tree] := by simpa [Tree.kindsOf] using hm
    exact absurd (hmakes.kinds _ hmem) (by decide)
  obtain ⟨us, before, ps, behind, htree, hc, hdecls, haside⟩ := prolog_of_makes hmakes
  have htree : (Parsed.ofSource source).tree = .node .root us := List.singleton_inj.mp htree
  have hnone : before.find? (·.1 = .prolog) = none :=
    List.find?_eq_none.mpr fun c hm => by simp [(haside c (List.mem_append_left _ hm)).1]
  have hfind : (constructs (Parsed.ofSource source).root.children).find? (·.1 = .prolog) = some (.prolog, ps) := by
    rw [Parsed.root, htree, Node.ofTree, hc, List.find?_append, hnone]
    rfl
  obtain ⟨prolog, hprolog, hps⟩ := Node.child?_of_find hfind
  have hdecls : DeclsMade prolog.children := hps ▸ hdecls
  have hcount : (Parsed.ofSource source).tree.kinds.count .functionDecl = prolog.functionDecls.length := by
    have hzero : ∀ cs : List (NodeKind × List Tree), (∀ c ∈ cs, Aside c) →
        (cs.flatMap fun c => c.1 :: Tree.kindsOf c.2).count .functionDecl = 0 := by
      intro cs hcs
      refine List.count_eq_zero.mpr fun hm => ?_
      obtain ⟨c, hc, hk⟩ := List.mem_flatMap.mp hm
      exact (hcs c hc).2 hk
    obtain ⟨hbefore, hbehind⟩ := List.forall_mem_append.mp haside
    rw [htree, Tree.kinds_node, Tree.kindsOf_eq, hc, ← Node.count_of_makes hdecls, hps]
    simp [List.count_append, hzero before hbefore, hzero behind hbehind]
  refine ⟨herror, prolog, _, hprolog, Module.parse_of_faultless h, Node.ended_of_makes hdecls, hcount, ?_⟩
  have hfunctions : (Module.ofTree (Parsed.ofSource source).tree).functions = prolog.functionDecls.filterMap Node.toFunctionDecl? := by
    unfold Module.ofTree Module.ofNode
    rw [show (Node.ofTree (Parsed.ofSource source).tree).prolog? = some prolog from hprolog]
    rfl
  rw [hfunctions]
  exact filterMap_all (Node.functions_of_makes hdecls)

set_option maxRecDepth 10000 in
/-- The one function declaration of a source becomes the one function of its module. -/
theorem Module.parse_keeps_one_function :
    (Parsed.ofSource "declare function f($a as t,$b)external;").hasErrors = false ∧
      ∃ m, Module.parse "declare function f($a as t,$b)external;" = .ok m ∧ m.functions.length = 1 := by
  have hclean : (Parsed.ofSource "declare function f($a as t,$b)external;").hasErrors = false := by cbv
  have hone : (Parsed.ofSource "declare function f($a as t,$b)external;").tree.kinds.count .functionDecl = 1 := by cbv
  obtain ⟨-, prolog, m, -, hm, -, hcount, hf⟩ := parse_keeps_functions _ hclean
  exact ⟨hclean, m, hm, hf.length_eq.symm.trans (hcount.symm.trans hone)⟩

end QueryStubs
