import QueryStubs.Module.OfTree
import QueryStubs.Proofs.Scan.Marks

/-!
# Names in modules are names

In the type of modules a name is any text. In a module that was read it is a name: the leaves of its tree are spelled as their kinds say
(`Parsed.spelled_root`), and every part of a name that a view gives is the text of a leaf of kind `name` (`Parsed.names_writable`).
-/

namespace QueryStubs

/-- The leaves of a construct in a row are leaves of the row. -/
theorem Tree.leaves_of_construct {ts : List Tree} {c : NodeKind × List Tree} (h : c ∈ constructs ts) : leavesOf c.2 ⊆ leavesOf ts := by
  induction ts with
  | nil => cases h
  | cons t ts ih =>
    intro u hu
    rw [leavesOf, List.mem_append]
    cases t with
    | leaf t => exact .inr (ih h hu)
    | node kind us =>
      rcases List.mem_cons.mp h with h | h
      · subst h
        exact .inl (leaves_node kind us ▸ hu)
      · exact .inr (ih h hu)

/-- The tokens that are leaves of a row itself are leaves of the row. -/
theorem Tree.ownTokens_subset (ts : List Tree) : ownTokens ts ⊆ leavesOf ts := by
  induction ts with
  | nil => exact List.Subset.refl _
  | cons t ts ih =>
    intro u hu
    rw [leavesOf, List.mem_append]
    cases t with
    | leaf t =>
      rcases List.mem_cons.mp hu with hu | hu
      · exact .inl (by simp [hu])
      · exact .inr (ih hu)
    | node kind us => exact .inr (ih hu)

/-- What results were collected from. -/
theorem mem_of_mapM_eq_some {α β : Type} {f : α → Option β} {xs : List α} {ys : List β} (h : xs.mapM f = some ys) :
    ∀ y ∈ ys, ∃ x ∈ xs, f x = some y := by
  induction xs generalizing ys with
  | nil =>
    cases h
    exact List.forall_mem_nil _
  | cons x xs ih =>
    rw [List.mapM_cons] at h
    obtain ⟨z, hz, h⟩ := Option.bind_eq_some_iff.mp h
    obtain ⟨zs, hzs, h⟩ := Option.bind_eq_some_iff.mp h
    cases h
    intro y hy
    rcases List.mem_cons.mp hy with rfl | hy
    · exact ⟨x, List.mem_cons_self, hz⟩
    · obtain ⟨w, hw, hwy⟩ := ih hzs y hy
      exact ⟨w, List.mem_cons_of_mem _ hw, hwy⟩

namespace Node

variable {n m : Node}

/-- The tokens under a node are spelled as their kinds say. -/
def Spelled (n : Node) : Prop := ∀ t ∈ n.leaves, t.Spelled

theorem Spelled.of_mem (h : n.Spelled) (hm : m ∈ n.nodes) : m.Spelled := by
  intro t ht
  have hc : m.construct ∈ Tree.constructs n.children := constructs_eq n ▸ List.mem_map_of_mem hm
  exact h t (Tree.leaves_of_construct hc ht)

theorem Spelled.of_child? {kind : NodeKind} (h : n.Spelled) (hm : n.child? kind = some m) : m.Spelled :=
  h.of_mem (List.mem_of_find?_eq_some hm)

theorem Spelled.of_childrenOf {kind : NodeKind} (h : n.Spelled) (hm : m ∈ n.childrenOf kind) : m.Spelled :=
  h.of_mem (List.mem_filter.mp hm).1

/-- The names that make up a qualified name are names. -/
theorem Spelled.nameTexts (h : n.Spelled) : ∀ w ∈ n.nameTexts, IsNCName w := by
  intro w hw
  obtain ⟨t, ht, rfl⟩ := List.mem_map.mp hw
  obtain ⟨ht, hk⟩ := List.mem_filter.mp ht
  rw [tokens_eq] at ht
  exact (h t (Tree.ownTokens_subset n.children ht)).name (of_decide_eq_true hk)

theorem Spelled.toQName? (h : n.Spelled) {name : QName} (hn : n.toQName? = some name) : name.Writable := by
  have hall := h.nameTexts
  obtain ⟨w, hw, hname⟩ := Option.bind_eq_some_iff.mp hn
  cases hname
  refine ⟨hall w (List.mem_of_getLast? hw), fun p hp => ?_⟩
  have hp : n.qualifier? = some p := hp
  unfold qualifier? at hp
  split at hp
  · next first second rest hnames =>
    cases hp
    exact hall _ (hnames ▸ List.mem_cons_self)
  · cases hp

theorem Spelled.toParam? (h : n.Spelled) {p : Param} (hp : n.toParam? = some p) : p.name.Writable := by
  obtain ⟨m, hm, hname⟩ := (readsParam hp).name
  exact (h.of_child? hm).toQName? hname

theorem Spelled.params (h : n.Spelled) : ∀ p ∈ n.params, p.Spelled := by
  intro p hp
  unfold Node.params at hp
  split at hp
  · cases hp
  · next list hlist => exact (h.of_child? hlist).of_childrenOf hp

theorem Spelled.toFunctionDecl? (h : n.Spelled) {f : FunctionDecl} (hf : n.toFunctionDecl? = some f) :
    f.name.Writable ∧ ∀ p ∈ f.params, p.name.Writable := by
  obtain ⟨m, hm, hname⟩ := (readsFunction hf).name
  refine ⟨(h.of_child? hm).toQName? hname, fun p hp => ?_⟩
  obtain ⟨k, hk, hkp⟩ := mem_of_mapM_eq_some (readsFunction hf).params p hp
  exact (h.params k hk).toParam? hkp

end Node

/-- The leaves of the tree of a source are the leaves of its top. -/
theorem Parsed.leaves_root (p : Parsed) : p.root.leaves = p.tree.leaves := by
  unfold root Node.ofTree Node.leaves
  cases p.tree <;> simp [Tree.leavesOf]

/-- The tokens in the tree of a source are spelled as their kinds say. -/
theorem Parsed.spelled_root (source : String) : (ofSource source).root.Spelled := by
  intro t ht
  rw [leaves_root] at ht
  exact spelled_of_leaf source t ht

/-- A function of a module that was read is declared by a node of the prolog. -/
theorem Parsed.exists_functionDecl {source : String} {f : FunctionDecl} (hf : f ∈ (ofSource source).module.functions) :
    ∃ prolog n, (ofSource source).root.prolog? = some prolog ∧ n ∈ prolog.functionDecls ∧ n.toFunctionDecl? = some f := by
  have hf : f ∈ (ofSource source).root.prolog?.elim [] fun p => p.functionDecls.filterMap Node.toFunctionDecl? := hf
  cases hp : (ofSource source).root.prolog? with
  | none =>
    rw [hp] at hf
    cases hf
  | some prolog =>
    rw [hp] at hf
    obtain ⟨n, hn, hnf⟩ := List.mem_filterMap.mp hf
    exact ⟨prolog, n, rfl, hn, hnf⟩

/-- The functions of a module that was read have names that are names, and so have their parameters. -/
theorem Parsed.names_writable {source : String} {f : FunctionDecl} (hf : f ∈ (ofSource source).module.functions) :
    f.name.Writable ∧ ∀ p ∈ f.params, p.name.Writable := by
  obtain ⟨prolog, n, hprolog, hn, hnf⟩ := exists_functionDecl hf
  exact (((spelled_root source).of_child? hprolog).of_childrenOf hn).toFunctionDecl? hnf

end QueryStubs
