import QueryStubs.Proofs.Syntax.Lexical
import QueryStubs.Proofs.Views.Rows
import QueryStubs.Proofs.Written.Source

/-!
# What trivia do not change

The bare form of a row of trees has no trivia in it, and of a node for what could not be used it has only the tokens (`Tree.bareOf`). A
view finds the same in two nodes whose insides have the same bare form, wherever they stand (`Node.Similar`): parts of similar nodes are
similar, and the function that a node declares, the version it gives and the module that a tree holds go by such parts only.

The mark after an item type is an exception: its view takes the first token in the node, whatever it is, so nothing is left out there.
-/

namespace QueryStubs

open Grammar (leavesFor)

namespace Tree

/-- The inside of a node in its bare form, given what the form would be in a node of most kinds. -/
def bareInside (kind : NodeKind) (ts bare : List Tree) : List Tree :=
  match kind with
  | .occurrence => ts
  | .error => leavesFor ((leavesOf ts).filter (!·.isTrivia))
  | _ => bare

mutual

/-- A tree without trivia, as a row because it may be trivia itself. -/
def bare : Tree → List Tree
  | leaf t => if t.isTrivia then [] else [leaf t]
  | node kind ts => [node kind (bareInside kind ts (bareOf ts))]

/-- A row of trees without trivia. -/
def bareOf : List Tree → List Tree
  | [] => []
  | t :: ts => bare t ++ bareOf ts

end

/-- The bare form of the inside of a node. -/
def inside (kind : NodeKind) (ts : List Tree) : List Tree := bareInside kind ts (bareOf ts)

/-- Where nothing is there is no trivia. -/
@[simp] theorem bareOf_nil : bareOf [] = [] := by simp [bareOf]

/-- A node keeps its kind, and its inside is bare, too. -/
@[simp] theorem bareOf_node (kind : NodeKind) (us ts : List Tree) :
    bareOf (node kind us :: ts) = node kind (inside kind us) :: bareOf ts := by
  simp [bareOf, bare, inside]

/-- A token is left out if it is trivia. -/
theorem bareOf_leaf (t : Token) (ts : List Tree) :
    bareOf (leaf t :: ts) = if t.isTrivia then bareOf ts else leaf t :: bareOf ts := by
  simp only [bareOf, bare]
  split <;> rfl

/-- Rows are bared one after the other. -/
@[simp] theorem bareOf_append (ts us : List Tree) : bareOf (ts ++ us) = bareOf ts ++ bareOf us := by
  induction ts with
  | nil => simp
  | cons t ts ih => simp only [List.cons_append, bareOf, ih, List.append_assoc]

/-- Nothing is left of trivia. -/
theorem bareOf_trivia {ws : List Token} (h : Token.AllTrivia ws) : bareOf (leavesFor ws) = [] := by
  induction ws with
  | nil => exact bareOf_nil
  | cons w ws ih =>
    obtain ⟨hw, hws⟩ := List.forall_mem_cons.mp h
    exact (bareOf_leaf w _).trans ((if_pos hw).trans (ih hws))

/-- Inside most nodes the bare form is that of the row. -/
theorem inside_eq {kind : NodeKind} (he : kind ≠ .error) (hm : kind ≠ .occurrence) (ts : List Tree) : inside kind ts = bareOf ts := by
  unfold inside bareInside
  split
  · exact absurd rfl hm
  · exact absurd rfl he
  · rfl

/-- Rows that are the same inside a node have the same bare form, unless the node is for what could not be used. -/
theorem bareOf_eq_of_inside {kind : NodeKind} {ts us : List Tree} (he : kind ≠ .error) (h : inside kind ts = inside kind us) :
    bareOf ts = bareOf us := by
  by_cases hm : kind = .occurrence
  · subst hm
    exact congrArg bareOf h
  · rwa [inside_eq he hm, inside_eq he hm] at h

/-- The constructs of a row in its bare form. -/
theorem constructs_bareOf (ts : List Tree) : constructs (bareOf ts) = (constructs ts).map fun c => (c.1, inside c.1 c.2) := by
  induction ts with
  | nil => simp
  | cons t ts ih =>
    cases t with
    | leaf t =>
      rw [bareOf_leaf]
      split <;> simpa using ih
    | node kind us => simp [ih]

/-- The tokens of a row in its bare form. -/
theorem ownTokens_bareOf (ts : List Tree) : ownTokens (bareOf ts) = (ownTokens ts).filter (!·.isTrivia) := by
  induction ts with
  | nil => simp [ownTokens]
  | cons t ts ih =>
    cases t with
    | leaf t =>
      rw [bareOf_leaf, ownTokens, List.filter_cons]
      by_cases ht : t.isTrivia = true <;> simp [ht, ownTokens, ih]
    | node kind us => simpa [ownTokens] using ih

mutual

/-- No token but trivia is missing from the bare form of a tree. -/
theorem leavesOf_bare (t : Tree) : (leavesOf (bare t)).filter (!·.isTrivia) = t.leaves.filter (!·.isTrivia) := by
  cases t with
  | leaf t => by_cases ht : t.isTrivia = true <;> simp [bare, ht, leavesOf]
  | node kind ts =>
    have ih := leavesOf_bareOf ts
    simp only [bare, leavesOf, leaves_node, List.append_nil]
    unfold bareInside
    split
    · rfl
    · simp [leavesFor]
    · exact ih

/-- Nor is any missing from that of a row. -/
theorem leavesOf_bareOf (ts : List Tree) : (leavesOf (bareOf ts)).filter (!·.isTrivia) = (leavesOf ts).filter (!·.isTrivia) := by
  cases ts with
  | nil => simp
  | cons t ts => simp [bareOf, leavesOf, leavesOf_bare t, leavesOf_bareOf ts]

end

/-- Rows with the same bare form have the same tokens but for trivia. -/
theorem leaves_eq_of_bareOf {ts us : List Tree} (h : bareOf ts = bareOf us) :
    (leavesOf ts).filter (!·.isTrivia) = (leavesOf us).filter (!·.isTrivia) := by
  rw [← leavesOf_bareOf ts, ← leavesOf_bareOf us, h]

end Tree

/-! ## Results that agree -/

/-- What is made of similar things in the same way is the same. -/
theorem rel_bind {α β γ : Type} {R : α → β → Prop} {a : Option α} {b : Option β} {f : α → Option γ} {g : β → Option γ}
    (hr : Option.Rel R a b) (h : ∀ x y, R x y → f x = g y) : a.bind f = b.bind g := by
  cases hr with
  | none => rfl
  | some hxy => exact h _ _ hxy

/-- Where results agree, they are collected to the same. -/
theorem forall₂_mapM {α β γ : Type} {R : α → β → Prop} {f : α → Option γ} {g : β → Option γ} (h : ∀ a b, R a b → f a = g b)
    {xs : List α} {ys : List β} (hr : List.Forall₂ R xs ys) : xs.mapM f = ys.mapM g := by
  induction hr with
  | nil => rfl
  | cons hab _ ih => rw [List.mapM_cons, List.mapM_cons, h _ _ hab, ih]

namespace Node

/-- Nodes of one kind whose insides have the same bare form. -/
structure Similar (n m : Node) : Prop where
  kind : n.kind = m.kind
  inside : Tree.inside n.kind n.children = Tree.inside m.kind m.children

variable {n m : Node}

/-- The insides of similar nodes have the same bare form, unless the nodes are for what could not be used. -/
theorem Similar.bareOf (h : n.Similar m) (he : n.kind ≠ .error) : Tree.bareOf n.children = Tree.bareOf m.children := by
  have hin := h.inside
  rw [← h.kind] at hin
  exact Tree.bareOf_eq_of_inside he hin

/-- The parts of similar nodes are similar. -/
theorem nodes_similar (h : Tree.bareOf n.children = Tree.bareOf m.children) : List.Forall₂ Similar n.nodes m.nodes := by
  have hparts : (n.nodes.map construct).map (fun c => (c.1, Tree.inside c.1 c.2)) =
      (m.nodes.map construct).map fun c => (c.1, Tree.inside c.1 c.2) := by
    rw [constructs_eq, constructs_eq, ← Tree.constructs_bareOf, ← Tree.constructs_bareOf, h]
  rw [List.map_map, List.map_map, ← List.forall₂_eq_eq_eq, List.forall₂_map_left_iff, List.forall₂_map_right_iff] at hparts
  exact hparts.imp fun a b hab => ⟨congrArg Prod.fst hab, congrArg Prod.snd hab⟩

/-- Similar nodes of a kind that passes a test. -/
def SimilarOf (p : NodeKind → Bool) (n m : Node) : Prop := n.Similar m ∧ p n.kind = true

/-- The parts whose kind passes a test are similar. -/
theorem filter_similar (p : NodeKind → Bool) (h : Tree.bareOf n.children = Tree.bareOf m.children) :
    List.Forall₂ (SimilarOf p) (n.nodes.filter fun x => p x.kind) (m.nodes.filter fun x => p x.kind) :=
  forall₂_filter (fun _ _ hab => by rw [hab.kind]) (nodes_similar h)

/-- The first part whose kind passes a test is similar. -/
theorem find?_similar (p : NodeKind → Bool) (h : Tree.bareOf n.children = Tree.bareOf m.children) :
    Option.Rel (SimilarOf p) (n.nodes.find? fun x => p x.kind) (m.nodes.find? fun x => p x.kind) := by
  rw [← List.head?_filter, ← List.head?_filter]
  have hfilter := filter_similar p h
  generalize (n.nodes.filter fun x => p x.kind) = ns, (m.nodes.filter fun x => p x.kind) = ms at hfilter
  cases hfilter with
  | nil => exact .none
  | cons hab _ => exact .some hab

/-- The first part of a kind is similar. -/
theorem child?_similar (kind : NodeKind) (h : Tree.bareOf n.children = Tree.bareOf m.children) :
    Option.Rel (SimilarOf (· = kind)) (n.child? kind) (m.child? kind) :=
  find?_similar (· = kind) h

/-- The bare forms of the insides of similar nodes of known kinds are the same. -/
theorem SimilarOf.bareOf {p : NodeKind → Bool} (h : SimilarOf p n m) (hp : p .error = false) :
    Tree.bareOf n.children = Tree.bareOf m.children := by
  refine h.1.bareOf fun he => ?_
  have hk := h.2
  rw [he, hp] at hk
  cases hk

/-- The tokens that are parts of similar nodes are the same but for trivia. -/
theorem tokens_similar (h : Tree.bareOf n.children = Tree.bareOf m.children) :
    n.tokens.filter (!·.isTrivia) = m.tokens.filter (!·.isTrivia) := by
  rw [tokens_eq, tokens_eq, ← Tree.ownTokens_bareOf, ← Tree.ownTokens_bareOf, h]

/-- The first of them of a kind that is no trivia is the same. -/
theorem findToken_similar {kind : TokenKind} (hk : kind.isTrivia = false) (h : Tree.bareOf n.children = Tree.bareOf m.children) :
    n.tokens.find? (·.kind = kind) = m.tokens.find? (·.kind = kind) := by
  have hfind : ∀ ts : List Token, ts.find? (·.kind = kind) = (ts.filter (!·.isTrivia)).find? (·.kind = kind) := by
    intro ts
    rw [List.find?_filter]
    refine congrArg (ts.find? ·) (funext fun t => ?_)
    by_cases ht : t.kind = kind <;> simp [Token.isTrivia, ht, hk]
  rw [hfind n.tokens, hfind m.tokens, tokens_similar h]

/-! ## Names, types and functions -/

/-- Similar names are made up of the same names. -/
theorem nameTexts_similar (h : Tree.bareOf n.children = Tree.bareOf m.children) : n.nameTexts = m.nameTexts := by
  have hfilter : ∀ ts : List Token, ts.filter (·.kind = .name) = (ts.filter (!·.isTrivia)).filter (·.kind = .name) := by
    intro ts
    rw [List.filter_filter]
    refine congrArg (ts.filter ·) (funext fun t => ?_)
    by_cases ht : t.kind = .name <;> simp [Token.isTrivia, TokenKind.isTrivia, ht]
  rw [nameTexts, nameTexts, hfilter n.tokens, hfilter m.tokens, tokens_similar h]

/-- Where the insides have the same bare form the same name is read. -/
theorem toQName?_similar (h : Tree.bareOf n.children = Tree.bareOf m.children) : n.toQName? = m.toQName? := by
  unfold toQName? localPart? qualifier?
  rw [nameTexts_similar h]

/-- So is the same keyword of a test. -/
theorem testKeyword?_similar (h : Tree.bareOf n.children = Tree.bareOf m.children) : n.testKeyword? = m.testKeyword? := by
  unfold testKeyword?
  rw [findToken_similar rfl h]

/-- So is the same text without trivia. -/
theorem compactText_similar (h : Tree.bareOf n.children = Tree.bareOf m.children) : n.compactText = m.compactText := by
  unfold compactText leaves
  rw [Tree.leaves_eq_of_bareOf h]

/-- Similar nodes are read as the same item type. -/
theorem toItemType?_similar (h : n.Similar m) (he : n.kind ≠ .error) : n.toItemType? = m.toItemType? := by
  have hb := h.bareOf he
  unfold toItemType?
  rw [← h.kind]
  split
  · refine rel_bind (child?_similar .qname hb) fun a b hab => ?_
    rw [toQName?_similar (hab.bareOf rfl)]
  · rw [testKeyword?_similar hb, compactText_similar hb]
  · rfl
  · rfl
  · rfl

/-- The mark in similar sequence types is the same to the letter. -/
theorem toOccurrence?_similar (h : Tree.bareOf n.children = Tree.bareOf m.children) : n.toOccurrence? = m.toOccurrence? := by
  have hmark := child?_similar .occurrence h
  unfold toOccurrence?
  generalize n.child? .occurrence = a, m.child? .occurrence = b at hmark
  cases hmark with
  | none => rfl
  | @some a b hab =>
    have hin := hab.1.inside
    rw [← hab.1.kind, of_decide_eq_true hab.2] at hin
    have hchildren : a.children = b.children := hin
    simp only [leaves, hchildren]

/-- Where the insides have the same bare form the same sequence type is read. -/
theorem toSequenceType?_similar (h : Tree.bareOf n.children = Tree.bareOf m.children) : n.toSequenceType? = m.toSequenceType? := by
  have hitem : Option.Rel (SimilarOf fun k => k = .atomicType || k = .kindTest || k = .anyItem || k = .emptySequence)
    n.itemType? m.itemType? := find?_similar _ h
  refine rel_bind hitem fun a b hab => ?_
  have he : a.kind ≠ .error := fun he => by simp [SimilarOf, he] at hab
  rw [toItemType?_similar hab.1 he, toOccurrence?_similar h]

/-- Nodes with similar type declarations declare the same type. -/
theorem toDeclaredType?_of_rel (h : Option.Rel (SimilarOf (· = .typeDecl)) n.typeDecl? m.typeDecl?) :
    n.toDeclaredType? = m.toDeclaredType? := by
  unfold toDeclaredType?
  generalize n.typeDecl? = a, m.typeDecl? = b at h
  cases h with
  | none => rfl
  | some hab =>
    refine rel_bind (child?_similar .sequenceType (hab.bareOf rfl)) fun x y hxy => ?_
    rw [toSequenceType?_similar (hxy.bareOf rfl)]

/-- So is the same declared type. -/
theorem toDeclaredType?_similar (h : Tree.bareOf n.children = Tree.bareOf m.children) : n.toDeclaredType? = m.toDeclaredType? :=
  toDeclaredType?_of_rel (child?_similar .typeDecl h)

/-- So is the same parameter. -/
theorem toParam?_similar (h : Tree.bareOf n.children = Tree.bareOf m.children) : n.toParam? = m.toParam? := by
  refine rel_bind (child?_similar .qname h) fun a b hab => ?_
  rw [toQName?_similar (hab.bareOf rfl), toDeclaredType?_similar h]

/-- The parameters in similar lists are similar. -/
theorem params_of_rel (h : Option.Rel (SimilarOf (· = .paramList)) n.paramList? m.paramList?) :
    List.Forall₂ (SimilarOf (· = .param)) n.params m.params := by
  unfold params
  generalize n.paramList? = a, m.paramList? = b at h
  cases h with
  | none => exact .nil
  | some hab => exact filter_similar (· = .param) (hab.bareOf rfl)

/-- The bodies of similar functions are of one kind. -/
theorem functionBody?_similar (h : Tree.bareOf n.children = Tree.bareOf m.children) :
    n.functionBody?.map toFunctionBody = m.functionBody?.map toFunctionBody := by
  have hrel : Option.Rel (SimilarOf fun k => k = .enclosedBody || k = .externalBody) n.functionBody? m.functionBody? := find?_similar _ h
  generalize n.functionBody? = a, m.functionBody? = b at hrel
  cases hrel with
  | none => rfl
  | some hab => simp only [Option.map_some, toFunctionBody, hab.1.kind]

/-- The function that a node declares, put together from its parts. -/
theorem toFunctionDecl?_eq (n : Node) : n.toFunctionDecl? =
    (n.qname?.bind toQName?).bind fun name => (n.params.mapM toParam?).bind fun params => n.toDeclaredType?.bind fun returnType =>
      (n.functionBody?.map toFunctionBody).map fun body => ⟨name, params, returnType, body, n.span⟩ := by
  rw [Option.bind_assoc]
  unfold toFunctionDecl?
  simp only [Option.bind_eq_bind, Option.pure_def, Option.map_eq_bind, Option.bind_assoc, Function.comp_def, Option.bind_some]

/-- Declarations with similar parts declare the same function, each at its own place, if their bodies are of one kind. -/
theorem toFunctionDecl?_of_parts (hname : Option.Rel (SimilarOf (· = .qname)) n.qname? m.qname?)
    (hparams : Option.Rel (SimilarOf (· = .paramList)) n.paramList? m.paramList?)
    (htype : Option.Rel (SimilarOf (· = .typeDecl)) n.typeDecl? m.typeDecl?)
    (hbody : n.functionBody?.map toFunctionBody = m.functionBody?.map toFunctionBody) :
    n.toFunctionDecl? = m.toFunctionDecl?.map fun f => { f with span := n.span } := by
  have hname : (n.qname?.bind toQName?) = m.qname?.bind toQName? := rel_bind hname fun _ _ hab => toQName?_similar (hab.bareOf rfl)
  have hparams : n.params.mapM toParam? = m.params.mapM toParam? :=
    forall₂_mapM (fun _ _ hab => toParam?_similar (hab.bareOf rfl)) (params_of_rel hparams)
  rw [toFunctionDecl?_eq n, toFunctionDecl?_eq m, hname, hparams, toDeclaredType?_of_rel htype, hbody]
  simp only [Option.map_bind, Function.comp_def, Option.map_map]

/-- Similar declarations declare the same function, each at its own place. -/
theorem toFunctionDecl?_similar (h : Tree.bareOf n.children = Tree.bareOf m.children) :
    n.toFunctionDecl? = m.toFunctionDecl?.map fun f => { f with span := n.span } :=
  toFunctionDecl?_of_parts (child?_similar .qname h) (child?_similar .paramList h) (child?_similar .typeDecl h) (functionBody?_similar h)

/-! ## Literals, versions and modules -/

/-- The first token of which something is made is no trivia, if nothing is made of trivia. -/
theorem findSome?_filter {α : Type} {f : Token → Option α} (hf : ∀ t, t.isTrivia = true → f t = none) (ts : List Token) :
    ts.findSome? f = (ts.filter (!·.isTrivia)).findSome? f := by
  induction ts with
  | nil => rfl
  | cons t ts ih =>
    rw [List.findSome?_cons, List.filter_cons]
    by_cases ht : t.isTrivia = true
    · simp only [hf t ht, ht, Bool.not_true, Bool.false_eq_true, if_false]
      exact ih
    · simp only [ht, Bool.not_false, if_true, List.findSome?_cons, ih]

/-- The marks of a literal are no trivia. -/
theorem quote?_similar (h : Tree.bareOf n.children = Tree.bareOf m.children) : n.quote? = m.quote? := by
  unfold quote?
  refine (findSome?_filter ?_ _).trans ((congrArg _ (tokens_similar h)).trans (findSome?_filter ?_ _).symm)
  all_goals
    intro t ht
    split
    · next hk => simp [Token.isTrivia, TokenKind.isTrivia, hk] at ht
    · next hk => simp [Token.isTrivia, TokenKind.isTrivia, hk] at ht
    · rfl

/-- So is the same value of a literal. -/
theorem literalValue_similar (h : Tree.bareOf n.children = Tree.bareOf m.children) : n.literalValue = m.literalValue := by
  unfold literalValue rawLiteral?
  rw [findToken_similar rfl h, quote?_similar h]

end Node

/-! ## Parts in order -/

/-- A part as a tree in its bare form. -/
def Part.bare : Part → Tree
  | token t => .leaf t
  | node n => .node n.kind (Tree.inside n.kind n.children)

/-- The parts of a row that are no trivia are the trees of its bare form. -/
theorem Part.bare_ofTrees (start : Nat) (ts : List Tree) :
    ((ofTrees start ts).filter (!·.isTrivia)).map bare = Tree.bareOf ts := by
  induction ts generalizing start with
  | nil => simp [ofTrees]
  | cons t ts ih =>
    cases t with
    | leaf t =>
      rw [ofTrees, Tree.bareOf_leaf, List.filter_cons, ← ih (start + t.size)]
      by_cases ht : t.isTrivia = true <;> simp [isTrivia, ht, bare]
    | node kind us =>
      rw [ofTrees, Tree.bareOf_node, List.filter_cons, ← ih (start + Token.sizeOf (Tree.leavesOf us))]
      simp [isTrivia, bare]

/-- Where parts look the same without trivia, the one right behind the first keyword of a spelling looks the same. -/
theorem Part.behind_similar (word : String) {ps qs : List Part} (h : ps.map bare = qs.map bare) :
    (((ps.dropWhile fun p => !p.isKeyword word).drop 1).head?).map bare =
      (((qs.dropWhile fun p => !p.isKeyword word).drop 1).head?).map bare := by
  have hkeyword : ∀ p q : Part, p.bare = q.bare → p.isKeyword word = q.isKeyword word := by
    intro p q hpq
    cases p <;> cases q <;> simp_all [bare, isKeyword]
  induction ps generalizing qs with
  | nil =>
    obtain rfl := List.map_eq_nil_iff.mp h.symm
    rfl
  | cons p ps ih =>
    cases qs with
    | nil => cases h
    | cons q qs =>
      obtain ⟨hpq, hrest⟩ := List.cons.inj h
      rw [List.dropWhile_cons, List.dropWhile_cons, hkeyword p q hpq]
      split
      · exact ih hrest
      · simp only [List.drop_succ_cons, List.drop_zero, ← List.head?_map, hrest]

/-- What comes right behind the first keyword of a spelling is looked for among the parts that are no trivia. -/
theorem Part.behind_keyword (word : String) (ps : List Part) :
    ((ps.dropWhile fun p => !p.isKeyword word).drop 1).find? (!·.isTrivia) =
      (((ps.filter (!·.isTrivia)).dropWhile fun p => !p.isKeyword word).drop 1).head? := by
  induction ps with
  | nil => rfl
  | cons p ps ih =>
    have hkeyword : p.isKeyword word = true → p.isTrivia = false := by
      cases p with
      | token t => 
        intro hp
        simp only [isKeyword, Bool.and_eq_true, decide_eq_true_eq] at hp
        simp [isTrivia, Token.isTrivia, TokenKind.isTrivia, hp.1]
      | node n => exact fun _ => rfl
    by_cases hp : p.isKeyword word = true
    · simp [hp, hkeyword hp, List.head?_filter]
    · by_cases ht : p.isTrivia = true
      · simpa [List.dropWhile_cons, List.filter_cons, hp, ht] using ih
      · simpa [List.dropWhile_cons, List.filter_cons, hp, ht] using ih

namespace Node

variable {n m : Node}

/-- The literals behind a keyword in similar nodes stand for the same. -/
theorem literalAfter?_similar (word : String) (h : Tree.bareOf n.children = Tree.bareOf m.children) :
    (n.literalAfter? word).map literalValue = (m.literalAfter? word).map literalValue := by
  have hparts : (n.parts.filter (!·.isTrivia)).map Part.bare = (m.parts.filter (!·.isTrivia)).map Part.bare := by
    rw [parts, parts, Part.bare_ofTrees, Part.bare_ofTrees, h]
  have hbehind := Part.behind_similar word hparts
  unfold literalAfter?
  rw [Part.behind_keyword, Part.behind_keyword]
  generalize (((n.parts.filter (!·.isTrivia)).dropWhile fun p => !p.isKeyword word).drop 1).head? = a,
    (((m.parts.filter (!·.isTrivia)).dropWhile fun p => !p.isKeyword word).drop 1).head? = b at hbehind
  match a, b, hbehind with
  | none, none, _ => rfl
  | some (.token _), some (.token _), _ => rfl
  | some (.node x), some (.node y), hxy =>
    obtain ⟨hkind, hin⟩ := Tree.node.inj (Option.some.inj hxy)
    by_cases hs : x.kind = .str
    · have hsimilar : x.Similar y := ⟨hkind, hin⟩
      simp only [hs, ← hkind, if_true, Option.map_some]
      exact congrArg some (literalValue_similar (hsimilar.bareOf (by simp [hs])))
    · simp only [hs, ← hkind, if_false]

/-- So is the same version. -/
theorem toVersion_similar (h : Tree.bareOf n.children = Tree.bareOf m.children) : n.toVersion = m.toVersion := by
  unfold toVersion version? encoding?
  rw [literalAfter?_similar "version" h, literalAfter?_similar "encoding" h]

/-- So is the same prefix that a module declaration binds. -/
theorem boundPrefix?_similar (h : Tree.bareOf n.children = Tree.bareOf m.children) : n.boundPrefix? = m.boundPrefix? := by
  unfold boundPrefix?
  rw [findToken_similar rfl h]

/-- So is the same value of a URI. -/
theorem uri?_similar (h : Tree.bareOf n.children = Tree.bareOf m.children) :
    n.uri?.elim "" literalValue = m.uri?.elim "" literalValue := by
  have huri := child?_similar .str h
  unfold uri?
  generalize n.child? .str = a, m.child? .str = b at huri
  cases huri with
  | none => rfl
  | some hab => exact literalValue_similar (hab.bareOf rfl)

/-- Modules with similar module declarations are of the same kind. -/
theorem toModuleKind_of_rel (h : Option.Rel (SimilarOf (· = .moduleDecl)) n.moduleDecl? m.moduleDecl?) :
    n.toModuleKind = m.toModuleKind := by
  unfold toModuleKind
  generalize n.moduleDecl? = a, m.moduleDecl? = b at h
  cases h with
  | none => rfl
  | some hab =>
    have hb := hab.bareOf rfl
    simp only [boundPrefix?_similar hb, uri?_similar hb]

end Node

/-! ## Functions wherever they stand -/

/-- The functions of similar rows of declarations are the same up to their places. -/
theorem Node.functions_similar {ns ms : List Node} (h : List.Forall₂ (SimilarOf (· = .functionDecl)) ns ms) :
    (ns.filterMap toFunctionDecl?).map FunctionDecl.withoutSpan = (ms.filterMap toFunctionDecl?).map FunctionDecl.withoutSpan := by
  induction h with
  | nil => rfl
  | @cons a b ns ms hab _ ih =>
    rw [List.filterMap_cons, List.filterMap_cons, toFunctionDecl?_similar (hab.bareOf rfl)]
    cases b.toFunctionDecl? with
    | none => exact ih
    | some f => exact congrArg (f.withoutSpan :: ·) ih

/-- Trees with similar parts hold the same module up to the places of functions, if their prologs hold the same functions. -/
theorem Module.ofNode_of_parts {n m : Node} (hversion : Option.Rel (Node.SimilarOf (· = .versionDecl)) n.versionDecl? m.versionDecl?)
    (hmodule : Option.Rel (Node.SimilarOf (· = .moduleDecl)) n.moduleDecl? m.moduleDecl?)
    (hfunctions : (ofNode n).functions.map FunctionDecl.withoutSpan = (ofNode m).functions.map FunctionDecl.withoutSpan) :
    (ofNode n).withoutSpans = (ofNode m).withoutSpans := by
  have hversion : n.versionDecl?.map Node.toVersion = m.versionDecl?.map Node.toVersion := by
    generalize n.versionDecl? = a, m.versionDecl? = b at hversion
    cases hversion with
    | none => rfl
    | some hab => simp only [Option.map_some, Node.toVersion_similar (hab.bareOf rfl)]
  unfold withoutSpans
  rw [hfunctions]
  simp only [ofNode, hversion, Node.toModuleKind_of_rel hmodule]

/-- Similar trees hold the same module up to the places of functions. -/
theorem Module.ofNode_similar {n m : Node} (h : Tree.bareOf n.children = Tree.bareOf m.children) :
    (ofNode n).withoutSpans = (ofNode m).withoutSpans := by
  refine ofNode_of_parts (Node.child?_similar .versionDecl h) (Node.child?_similar .moduleDecl h) ?_
  have hprolog := Node.child?_similar .prolog h
  unfold ofNode Node.prolog?
  generalize n.child? .prolog = a, m.child? .prolog = b at hprolog
  cases hprolog with
  | none => rfl
  | some hab => exact Node.functions_similar (Node.filter_similar (· = .functionDecl) (hab.bareOf rfl))

end QueryStubs
