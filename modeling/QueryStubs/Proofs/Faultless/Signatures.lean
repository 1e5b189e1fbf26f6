import QueryStubs.Proofs.Faultless.Made

/-!
# Nothing is missing in what a form makes

In a node that was built as its form says, every view finds what it looks for: the name of a function, a parameter and an atomic type,
the item type of a sequence type and the test it is, the sequence type of a type declaration. So a parameter and a function can be read
from their nodes (`Node.param_of_makes`, `Node.function_of_makes`), with a type just where one is declared.
-/

namespace QueryStubs

open Grammar (Form leavesFor)
open QueryStubs.Tree (constructs)

namespace Node

/-! ## Names and types -/

/-- What a qualified name is made of. -/
def NameMade (ts : List Tree) : Prop := (Form.either .prefixed (.mark .name)).Makes ts ∧ Tree.Bare ts

/-- A qualified name spells a name. -/
theorem name_of_makes {n : Node} (h : NameMade n.children) : ∃ q, n.toQName? = some q := by
  have htoken : ∃ t ∈ n.tokens, t.kind = .name := by
    rw [tokens_eq]
    rcases h.1 with ⟨w, t, v, u, -, ht, -, -, hts⟩ | ⟨w, t, -, ht, -, hts⟩
    · exact ⟨t, by simp [hts, Tree.ownTokens], ht⟩
    · exact ⟨t, by simp [hts, Tree.ownTokens], of_decide_eq_true ht⟩
  obtain ⟨t, ht, hk⟩ := htoken
  have hmem : t.text ∈ n.nameTexts := List.mem_map_of_mem (List.mem_filter.mpr ⟨ht, by simp [hk]⟩)
  have hlast := List.getLast?_eq_some_getLast (List.ne_nil_of_mem hmem)
  exact ⟨⟨n.qualifier?, n.nameTexts.getLast (List.ne_nil_of_mem hmem)⟩, by simp [toQName?, localPart?, hlast]⟩

/-- A node that a qualified name comes first in has a name. -/
theorem qname_of_makes {n : Node} {us : List Tree} (h : (constructs n.children).find? (·.1 = .qname) = some (.qname, us))
    (hus : NameMade us) : ∃ m q, n.qname? = some m ∧ m.toQName? = some q := by
  obtain ⟨m, hm, hc⟩ := child?_of_find h
  obtain ⟨q, hq⟩ := name_of_makes (n := m) (hc ▸ hus)
  exact ⟨m, q, hm, hq⟩

/-- The names of the kind tests are the keywords of kind tests. -/
theorem test_of_name : ∀ name ∈ Grammar.kindTestNames, (KindTest.ofKeyword? name).isSome = true := by decide

/-- What a word with an empty pair of parentheses is made of. -/
def ParensMade (word : String) (ts : List Tree) : Prop := (Form.row [.word word, .mark .parenOpen, .mark .parenClose]).Makes ts

/-- What an item type of a kind is made of. -/
def ItemMade (kind : NodeKind) (ts : List Tree) : Prop :=
  kind = .atomicType ∧ Form.qname.Makes ts ∨
    (kind = .anyItem ∧ ParensMade "item" ts ∨ kind = .emptySequence ∧ ParensMade "empty-sequence" ts) ∨
      kind = .kindTest ∧ (Form.seq (.keyword Grammar.kindTestNames) (.bracketed .parenOpen .parenClose)).Makes ts

/-- The word that comes first in a kind test is its keyword. -/
theorem testKeyword_of_makes {n : Node} {words : List String} {f : Form} (h : (Form.seq (.keyword words) f).Makes n.children) :
    ∃ t us, n.testKeyword? = some t.text ∧ t.text ∈ words ∧ f.Makes us ∧ Tree.meantOf n.children = t :: Tree.meantOf us := by
  obtain ⟨_, us, hts, ⟨w, t, hw, ht, hmem, rfl⟩, hus⟩ := h
  have hnone : w.find? (·.kind = .keyword) = none :=
    List.find?_eq_none.mpr fun u hu hk => hw.kind_ne rfl u hu (of_decide_eq_true hk)
  have hkeyword : n.testKeyword? = some t.text := by
    rw [testKeyword?, tokens_eq, hts]
    simp [List.find?_append, hnone, Tree.ownTokens, ht]
  exact ⟨t, us, hkeyword, hmem, hus, by simp [hts, Tree.meantOf_trivia hw, Tree.meantOf_leaf (Token.isTrivia_eq_false ht rfl)]⟩

/-- An item type can be read. -/
theorem item_of_makes {n : Node} (h : ItemMade n.kind n.children) : ∃ i, n.toItemType? = some i := by
  rcases h with ⟨hk, h⟩ | hk | ⟨hk, h⟩
  · obtain ⟨us, hc, hus⟩ := h.node
    obtain ⟨m, q, hm, hq⟩ := qname_of_makes (n := n) (by rw [hc]; rfl) hus
    exact ⟨.atomic q, by simp [toItemType?, hk, hm, hq]⟩
  · rcases hk with ⟨hk, -⟩ | ⟨hk, -⟩
    · exact ⟨.anyItem, by simp [toItemType?, hk]⟩
    · exact ⟨.emptySequence, by simp [toItemType?, hk]⟩
  · obtain ⟨t, us, hkeyword, hmem, -⟩ := testKeyword_of_makes h
    obtain ⟨k, hof⟩ := Option.isSome_iff_exists.mp (test_of_name t.text hmem)
    exact ⟨.kindTest k n.compactText, by simp [toItemType?, hk, hkeyword, hof]⟩

/-- The mark after an item type is an occurrence. -/
theorem occurrence_of_makes {n : Node}
    (h : ∀ us, (constructs n.children).find? (·.1 = .occurrence) = some (.occurrence, us) →
      (Form.one TokenKind.isOccurrence).Makes us ∧ Tree.Bare us) : ∃ o, n.toOccurrence? = some o := by
  unfold toOccurrence?
  cases hm : n.child? .occurrence with
  | none => exact ⟨_, rfl⟩
  | some m =>
    obtain ⟨⟨w, t, hw, ht, hmark, hus⟩, hb⟩ := h m.children (find?_of_child? hm)
    have hw : w = [] := (hus ▸ hb).eq_nil hw
    obtain ⟨o, ho⟩ := hmark ht
    have hleaves : m.leaves = [t] := by simp [leaves, hus, hw, leavesFor, Tree.leavesOf]
    exact ⟨o, by simp [hleaves, ho]⟩

/-- What a sequence type consists of: an item type, and perhaps a mark. -/
theorem constructs_of_itemType {ts : List Tree} (h : Form.itemType.Makes ts) :
    ∃ kind us marks, constructs ts = (kind, us) :: constructs marks ∧ Tree.meantOf ts = Tree.meantOf us ++ Tree.meantOf marks ∧
      ItemMade kind us ∧ Form.occurrence.Makes marks ∧ (kind = .emptySequence → marks = []) := by
  have hmarked : ∀ {kind f us} (vs : List Tree), (Form.node kind f).Makes us →
      ∃ ws, constructs (us ++ vs) = (kind, ws) :: constructs vs ∧ Tree.meantOf (us ++ vs) = Tree.meantOf ws ++ Tree.meantOf vs ∧ f.Makes ws := by
    intro kind f us vs hitem
    obtain ⟨ws, hc, hws, -⟩ := hitem.node
    exact ⟨ws, by simp [hc], by simp [hitem.meant_node hc], hws⟩
  rcases h with ⟨us, vs, rfl, hitem, hmark⟩ | hitem | ⟨us, vs, rfl, hitem, hmark⟩ | ⟨us, vs, rfl, hitem, hmark⟩ | hnever
  · obtain ⟨ws, hc, ht, hws⟩ := hmarked vs hitem
    exact ⟨.atomicType, ws, vs, hc, ht, .inl ⟨rfl, hws⟩, hmark, nofun⟩
  · obtain ⟨ws, hc, hws, -⟩ := hitem.node
    exact ⟨.emptySequence, ws, [], hc, by simp [hitem.meant_node hc], .inr (.inl (.inr ⟨rfl, hws⟩)), .inr rfl, fun _ => rfl⟩
  · obtain ⟨ws, hc, ht, hws⟩ := hmarked vs hitem
    exact ⟨.anyItem, ws, vs, hc, ht, .inr (.inl (.inl ⟨rfl, hws⟩)), hmark, nofun⟩
  · obtain ⟨ws, hc, ht, hws⟩ := hmarked vs hitem
    exact ⟨.kindTest, ws, vs, hc, ht, .inr (.inr ⟨rfl, hws⟩), hmark, nofun⟩
  · obtain ⟨w, t, -, hp, -⟩ := hnever
    cases hp

/-- The item type that comes first in a row is the one of its node, and no mark. -/
theorem itemType_of_made {n : Node} {kind : NodeKind} {us : List Tree} {marks : List (NodeKind × List Tree)}
    (hc : constructs n.children = (kind, us) :: marks) (h : ItemMade kind us) :
    (∃ m, n.itemType? = some m ∧ m.kind = kind ∧ m.children = us) ∧
      (constructs n.children).find? (·.1 = .occurrence) = marks.find? (·.1 = .occurrence) := by
  have hkind : isItemType ⟨kind, [], 0⟩ = true ∧ kind ≠ .occurrence := by
    rcases h with ⟨rfl, -⟩ | (⟨rfl, -⟩ | ⟨rfl, -⟩) | ⟨rfl, -⟩ <;> decide
  have hfind : (n.itemType?).map construct = some (kind, us) := by
    refine (find?_eq (fun k => isItemType ⟨k, [], 0⟩) n).trans ?_
    rw [hc]
    exact List.find?_cons_of_pos hkind.1
  obtain ⟨m, hm, hmc⟩ := Option.map_eq_some_iff.mp hfind
  cases hmc
  exact ⟨⟨m, hm, rfl, rfl⟩, by rw [hc, List.find?_cons_of_neg (by simp [hkind.2])]⟩

/-- A sequence type can be read. -/
theorem sequenceType_of_makes {n : Node} (h : Form.itemType.Makes n.children) : ∃ t, n.toSequenceType? = some t := by
  obtain ⟨kind, us, marks, hc, -, hitem, hmarks, -⟩ := constructs_of_itemType h
  obtain ⟨⟨m, hm, rfl, rfl⟩, hfind⟩ := itemType_of_made hc hitem
  obtain ⟨i, hi⟩ := item_of_makes hitem
  have hoccurrence : ∃ o, n.toOccurrence? = some o := by
    refine occurrence_of_makes fun vs hvs => ?_
    rw [hfind] at hvs
    rcases hmarks.optional_node with hm | ⟨ws, hm, hws⟩
    · simp [hm] at hvs
    · obtain rfl : ws = vs := by simpa [hm] using hvs
      exact hws
  obtain ⟨o, ho⟩ := hoccurrence
  exact ⟨⟨i, o⟩, by simp [toSequenceType?, hm, hi, ho]⟩

/-- What follows the keyword of a type declaration. -/
def TypeMade (ts : List Tree) : Prop := (Form.seq (.word "as") (.leadNode .sequenceType .itemType)).Makes ts

/-- A type declaration has a sequence type. -/
theorem sequenceType_of_made {n : Node} (h : TypeMade n.children) : ∃ m, n.sequenceType? = some m ∧ Form.itemType.Makes m.children := by
  obtain ⟨us, vs, hts, hword, ws, rfl, hws⟩ := h
  have htype : (constructs n.children).find? (·.1 = .sequenceType) = some (.sequenceType, ws) := by
    rw [hts, Tree.constructs_append, hword.flat rfl]
    rfl
  obtain ⟨m, hm, rfl⟩ := child?_of_find htype
  exact ⟨m, hm, hws⟩

/-- The declared type can be read, and there is one just where there is a type declaration. -/
theorem declared_of_makes {n : Node} (h : ∀ us, (.typeDecl, us) ∈ constructs n.children → TypeMade us) :
    ∃ t, n.toDeclaredType? = some t ∧ t.isSome = n.typeDecl?.isSome := by
  unfold toDeclaredType?
  cases hm : n.typeDecl? with
  | none => exact ⟨none, rfl, rfl⟩
  | some m =>
    obtain ⟨k, hk, hmakes⟩ := sequenceType_of_made (h m.children (List.mem_of_find?_eq_some (find?_of_child? hm)))
    obtain ⟨t, ht⟩ := sequenceType_of_makes hmakes
    exact ⟨some t, by simp [hk, ht], rfl⟩

/-! ## Parameters and functions -/

/-- A node stands for a parameter: the parameter can be read from it, and has a type just where the node declares one. -/
structure YieldsParam (n : Node) (p : Param) : Prop where
  read : n.toParam? = some p
  typed : p.type.isSome = n.typeDecl?.isSome

/-- A node stands for a function: the function can be read from it, has one parameter for each parameter node under the node, in order,
and a type of its result just where the node declares one. -/
structure YieldsFunction (n : Node) (f : FunctionDecl) : Prop where
  read : n.toFunctionDecl? = some f
  params : List.Forall₂ YieldsParam n.params f.params
  paramCount : (Tree.kindsOf n.children).count .param = f.params.length
  typed : f.returnType.isSome = n.typeDecl?.isSome

/-- What a parameter is made of. -/
def ParamMade (ts : List Tree) : Prop := (Form.row [.mark .dollar, .qname, .optional .typeDecl]).Makes ts

/-- A type declaration that may be left out is the only construct of its row. -/
theorem types_of_makes {ts : List Tree} (h : (Form.optional .typeDecl).Makes ts) :
    ∀ c ∈ constructs ts, c.1 = .typeDecl ∧ TypeMade c.2 := by
  rcases h.optional_node with hc | ⟨us, hc, hus, -⟩
  · simp [hc]
  · rw [hc]
    exact fun c hm => List.mem_singleton.mp hm ▸ ⟨rfl, hus⟩

/-- The constructs of a parameter: its name, and perhaps a type. -/
theorem constructs_of_param {ts : List Tree} (h : ParamMade ts) :
    ∃ names types, constructs ts = (.qname, names) :: types ∧ NameMade names ∧ ∀ c ∈ types, c.1 = .typeDecl ∧ TypeMade c.2 := by
  obtain ⟨us, _, rfl, hmark, qs, vs, rfl, hq, htypes⟩ := h
  obtain ⟨names, hnames, hmade⟩ := hq.node
  exact ⟨names, constructs vs, by simp [hmark.flat rfl, hnames], hmade, types_of_makes htypes⟩

/-- The types that are declared in a parameter. -/
theorem types_of_param {ts : List Tree} (h : ParamMade ts) : ∀ us, (.typeDecl, us) ∈ constructs ts → TypeMade us := by
  obtain ⟨names, types, hc, -, htypes⟩ := constructs_of_param h
  intro us hus
  rw [hc] at hus
  rcases List.mem_cons.mp hus with hus | hus
  · cases hus
  · exact (htypes _ hus).2

/-- A parameter can be read. -/
theorem param_of_makes {n : Node} (h : ParamMade n.children) : ∃ p, n.YieldsParam p := by
  obtain ⟨names, types, hc, hmade, -⟩ := constructs_of_param h
  obtain ⟨m, q, hm, hq⟩ := qname_of_makes (n := n) (by rw [hc]; rfl) hmade
  obtain ⟨t, ht, htyped⟩ := declared_of_makes (types_of_param h)
  exact ⟨⟨q, t⟩, by simp [toParam?, hm, hq, ht], htyped⟩

/-- What a list of parameters is made of. -/
def ParamListMade (ts : List Tree) : Prop :=
  (Form.row [.mark .parenOpen, .optional (.listOf .param), .mark .parenClose]).Makes ts

/-- The constructs in a list of parameters are parameters. -/
theorem params_of_makes {ts : List Tree} (h : ParamListMade ts) : ∀ c ∈ constructs ts, c.1 = .param ∧ ParamMade c.2 := by
  have hparam : ∀ {us}, Form.param.Makes us → ∀ c ∈ constructs us, c.1 = .param ∧ ParamMade c.2 := by
    intro us h
    obtain ⟨vs, hc, hvs, -⟩ := h.node
    rw [hc]
    exact fun c hm => List.mem_singleton.mp hm ▸ ⟨rfl, hvs⟩
  have hmore : ∀ rows : List (List Tree), (∀ row ∈ rows, (Form.seq (.mark .comma) .param).Makes row) →
      ∀ c ∈ constructs rows.flatten, c.1 = .param ∧ ParamMade c.2 := by
    intro rows hrows
    induction rows with
    | nil => exact List.forall_mem_nil _
    | cons row rows ih =>
      obtain ⟨⟨xs, ys, rfl, hcomma, hys⟩, hrest⟩ := List.forall_mem_cons.mp hrows
      rw [List.flatten_cons, Tree.constructs_append, Tree.constructs_append, hcomma.flat rfl, List.nil_append]
      exact List.forall_mem_append.mpr ⟨hparam hys, ih hrest⟩
  obtain ⟨us, _, rfl, hopen, vs, ws, rfl, hlist, hclose⟩ := h
  rw [Tree.constructs_append, Tree.constructs_append, hopen.flat rfl, hclose.flat rfl, List.nil_append, List.append_nil]
  rcases hlist with ⟨first, _, rfl, hfirst, rows, rfl, hrows⟩ | hnone
  · rw [Tree.constructs_append]
    exact List.forall_mem_append.mpr ⟨hparam hfirst, hmore rows hrows⟩
  · cases hnone
    exact List.forall_mem_nil _

/-- What a function declaration is made of. -/
def FunctionMade (ts : List Tree) : Prop := (Form.seq (.declBody .functionDecl) (.mark .semicolon)).Makes ts

/-- The constructs of a signature: a name, parameters, and perhaps a type. -/
theorem constructs_of_signature {ts : List Tree} (h : Form.signature.Makes ts) :
    ∃ names params types, constructs ts = (.qname, names) :: (.paramList, params) :: types ∧ NameMade names ∧ ParamListMade params ∧
      ∀ c ∈ types, c.1 = .typeDecl ∧ TypeMade c.2 := by
  obtain ⟨ws, _, rfl, hwords, qs, _, rfl, hq, ps, vs, rfl, hp, htypes⟩ := h
  obtain ⟨names, hnames, hmade⟩ := hq.node
  obtain ⟨params, hparams, hlist, -⟩ := hp.node
  exact ⟨names, params, constructs vs, by simp [hwords.flat rfl, hnames, hparams], hmade, hlist, types_of_makes htypes⟩

/-- The constructs of a function declaration: its name, its parameters, perhaps a type, and its body. -/
theorem constructs_of_function {ts : List Tree} (h : FunctionMade ts) :
    ∃ names params types body bodyRow, constructs ts = (.qname, names) :: (.paramList, params) :: (types ++ [(body, bodyRow)]) ∧
      NameMade names ∧ ParamListMade params ∧ (∀ c ∈ types, c.1 = .typeDecl ∧ TypeMade c.2) ∧
        (body = .enclosedBody ∨ body = .externalBody) ∧ .param ∉ Tree.kindsOf bodyRow := by
  obtain ⟨_, us, rfl, ⟨ws, _, rfl, hwords, qs, _, rfl, hq, ps, _, rfl, hp, vs, bs, rfl, htypes, hbody⟩, hsemicolon⟩ := h
  have hsignature : Form.signature.Makes (ws ++ (qs ++ (ps ++ vs))) := ⟨_, _, rfl, hwords, _, _, rfl, hq, _, _, rfl, hp, htypes⟩
  obtain ⟨names, params, types, hc, hmade, hlist, htypes⟩ := constructs_of_signature hsignature
  have hrest : ∀ body bodyRow, constructs bs = [(body, bodyRow)] →
      constructs (ws ++ (qs ++ (ps ++ (vs ++ bs))) ++ us) = (.qname, names) :: (.paramList, params) :: (types ++ [(body, bodyRow)]) := by
    intro body bodyRow hb
    have hgroup : ws ++ (qs ++ (ps ++ (vs ++ bs))) ++ us = ws ++ (qs ++ (ps ++ vs)) ++ (bs ++ us) := by simp
    rw [hgroup, Tree.constructs_append, hc, Tree.constructs_append, hb, hsemicolon.flat rfl]
    rfl
  rcases hbody with hbody | hbody
  · obtain ⟨row, hb, hrow, -⟩ := hbody.node
    exact ⟨names, params, _, _, row, hrest _ _ hb, hmade, hlist, htypes, .inl rfl, fun hk => absurd (hrow.kinds _ hk) (by decide)⟩
  · obtain ⟨row, hb, hrow, -⟩ := hbody.node
    exact ⟨names, params, _, _, row, hrest _ _ hb, hmade, hlist, htypes, .inr rfl, fun hk => absurd (hrow.kinds _ hk) (by decide)⟩

/-- The parameter nodes under a function are the parts of its list of parameters. -/
theorem params_made {n : Node} {us : List Tree} (h : (constructs n.children).find? (·.1 = .paramList) = some (.paramList, us))
    (hus : ParamListMade us) : (∃ m : Node, m.children = us ∧ n.params = m.childrenOf .param) ∧ ∀ m ∈ n.params, ParamMade m.children := by
  obtain ⟨m, hm, rfl⟩ := child?_of_find h
  have hlist : n.params = m.childrenOf .param := by
    unfold Node.params
    rw [show n.paramList? = some m from hm]
  refine ⟨⟨m, rfl, hlist⟩, fun k hk => ?_⟩
  rw [hlist] at hk
  have hmem : k.construct ∈ constructs m.children := m.constructs_eq ▸ List.mem_map_of_mem (List.mem_filter.mp hk).1
  exact (params_of_makes hus _ hmem).2

/-- There is no parameter node under a function but those. -/
theorem paramCount_of_makes {n : Node} (h : FunctionMade n.children) :
    (∀ m ∈ n.params, ParamMade m.children) ∧ (Tree.kindsOf n.children).count .param = n.params.length := by
  obtain ⟨names, params, types, body, bodyRow, hc, hnames, hparams, htypes, hbody, hbodyRow⟩ := constructs_of_function h
  obtain ⟨⟨m, rfl, hlist⟩, hmade⟩ := params_made (n := n) (by rw [hc]; rfl) hparams
  refine ⟨hmade, ?_⟩
  have hinside : ∀ {kind ts} {f : Form}, f.Makes ts → kind ∉ f.kinds → (Tree.kindsOf ts).count kind = 0 :=
    fun hf hk => List.count_eq_zero.mpr fun hmem => hk (hf.kinds _ hmem)
  have hparamCount : (Tree.kindsOf m.children).count .param = n.params.length := by
    have hnone : ∀ c ∈ constructs m.children, .param ∉ Tree.kindsOf c.2 := fun c hcm =>
      List.count_eq_zero.mp (hinside (params_of_makes hparams c hcm).2 (by decide))
    rw [Tree.count_kindsOf hnone, ← childrenOf_eq, List.length_map, hlist]
  have htypeCount : (types.flatMap fun c => c.1 :: Tree.kindsOf c.2).count .param = 0 := by
    refine List.count_eq_zero.mpr fun hmem => ?_
    obtain ⟨c, hct, hk⟩ := List.mem_flatMap.mp hmem
    obtain ⟨htype, hrow⟩ := htypes c hct
    rw [htype] at hk
    rcases List.mem_cons.mp hk with hk | hk
    · cases hk
    · exact absurd (hrow.kinds _ hk) (by decide)
  have hbodyCount : (body :: Tree.kindsOf bodyRow).count .param = 0 := by
    refine List.count_eq_zero.mpr fun hmem => ?_
    rcases List.mem_cons.mp hmem with hk | hk
    · rcases hbody with rfl | rfl <;> cases hk
    · exact hbodyRow hk
  have hnameCount : (Tree.kindsOf names).count .param = 0 := hinside hnames.1 (by decide)
  rw [Tree.kindsOf_eq, hc]
  simp [List.flatMap_cons, List.count_append, htypeCount, hbodyCount, hparamCount, hnameCount]

/-- The types that are declared in a function, but for those of its parameters. -/
theorem types_of_function {ts : List Tree} (h : FunctionMade ts) : ∀ us, (.typeDecl, us) ∈ constructs ts → TypeMade us := by
  obtain ⟨names, params, types, body, bodyRow, hc, -, -, htypes, hbody, -⟩ := constructs_of_function h
  intro us hus
  rw [hc] at hus
  simp only [List.mem_cons, List.mem_append, List.not_mem_nil, or_false, Prod.mk.injEq, reduceCtorEq, false_and, false_or] at hus
  rcases hus with hus | ⟨rfl, -⟩
  · exact (htypes _ hus).2
  · rcases hbody with hbody | hbody <;> cases hbody

/-- A function can be read. -/
theorem function_of_makes {n : Node} (h : FunctionMade n.children) : ∃ f, n.YieldsFunction f := by
  obtain ⟨names, params, types, body, bodyRow, hc, hnames, -, htypes, hbody, -⟩ := constructs_of_function h
  obtain ⟨hparams, hcount⟩ := paramCount_of_makes h
  obtain ⟨m, q, hm, hq⟩ := qname_of_makes (n := n) (by rw [hc]; rfl) hnames
  obtain ⟨ps, hps, hyields⟩ : ∃ ps, n.params.mapM toParam? = some ps ∧ List.Forall₂ YieldsParam n.params ps :=
    mapM_eq_some fun k hk => (param_of_makes (hparams k hk)).imp fun p hp => ⟨hp.read, hp⟩
  obtain ⟨t, ht, htyped⟩ := declared_of_makes (types_of_function h)
  have hfound : (n.functionBody?).map construct = some (body, bodyRow) := by
    refine (find?_eq (fun k => k = .enclosedBody || k = .externalBody) n).trans ?_
    have hnone : types.find? (fun c => decide (c.1 = .enclosedBody) || decide (c.1 = .externalBody)) = none :=
      List.find?_eq_none.mpr fun c hct => by simp [(htypes c hct).1]
    rw [hc]
    rcases hbody with rfl | rfl <;> simp [List.find?_append, hnone]
  obtain ⟨b, hb, -⟩ := Option.map_eq_some_iff.mp hfound
  exact ⟨⟨q, ps, t, b.toFunctionBody, n.span⟩, by simp [toFunctionDecl?, hm, hq, hps, ht, hb], hyields,
    hcount.trans hyields.length_eq, htyped⟩

end Node

end QueryStubs
