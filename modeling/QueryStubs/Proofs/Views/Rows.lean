import Mathlib.Data.List.Forall2
import QueryStubs.Module.OfTree
import QueryStubs.Proofs.Syntax.Form

/-!
# Rows of trees and what a view goes by

The parts of a node are a row of trees. What a view finds depends on two things only: the constructs in the row, which are its nodes
without the leaves between them (`Node.constructs_eq`), and the tokens that are leaves of the row itself (`Node.tokens_eq`). Where the
node stands does not matter.

`Tree.kindsOf` lists every node kind in a row, however deep, so that a kind that is not listed is nowhere in the row.

Where a parameter or a function was read from a node, its parts were found there one by one (`Node.readsParam`, `Node.readsFunction`).
-/

namespace QueryStubs

open Grammar (leavesFor)

namespace Tree

mutual

/-- The kinds of the nodes of a tree from the outside to the inside. -/
def kinds : Tree → List NodeKind
  | leaf _ => []
  | node kind ts => kind :: kindsOf ts

/-- The kinds of the nodes of a row of trees. -/
def kindsOf : List Tree → List NodeKind
  | [] => []
  | t :: ts => kinds t ++ kindsOf ts

end

/-- The nodes of a row of trees, each as its kind and its own row. -/
def constructs : List Tree → List (NodeKind × List Tree)
  | [] => []
  | leaf _ :: ts => constructs ts
  | node kind us :: ts => (kind, us) :: constructs ts

/-- The tokens that are leaves of a row of trees itself. -/
def ownTokens : List Tree → List Token
  | [] => []
  | leaf t :: ts => t :: ownTokens ts
  | node _ _ :: ts => ownTokens ts

@[simp] theorem kinds_node (kind : NodeKind) (ts : List Tree) : (node kind ts).kinds = kind :: kindsOf ts := by simp [kinds]

@[simp] theorem kindsOf_append (ts us : List Tree) : kindsOf (ts ++ us) = kindsOf ts ++ kindsOf us := by
  induction ts with
  | nil => rfl
  | cons t ts ih => rw [List.cons_append, kindsOf, kindsOf, ih, List.append_assoc]

@[simp] theorem constructs_append (ts us : List Tree) : constructs (ts ++ us) = constructs ts ++ constructs us := by
  induction ts with
  | nil => rfl
  | cons t ts ih => cases t <;> simp [constructs, ih]

@[simp] theorem ownTokens_append (ts us : List Tree) : ownTokens (ts ++ us) = ownTokens ts ++ ownTokens us := by
  induction ts with
  | nil => rfl
  | cons t ts ih => cases t <;> simp [ownTokens, ih]

@[simp] theorem ownTokens_leavesFor (ts : List Token) : ownTokens (leavesFor ts) = ts := by
  induction ts with
  | nil => rfl
  | cons t ts ih => exact congrArg (t :: ·) ih

/-- Leaves are no constructs. -/
@[simp] theorem constructs_leavesFor (ts : List Token) : constructs (leavesFor ts) = [] := by
  induction ts with
  | nil => rfl
  | cons t ts ih => exact ih

@[simp] theorem constructs_nil : constructs [] = [] := rfl

@[simp] theorem constructs_leaf (t : Token) (ts : List Tree) : constructs (leaf t :: ts) = constructs ts := rfl

@[simp] theorem constructs_node (kind : NodeKind) (us ts : List Tree) :
    constructs (node kind us :: ts) = (kind, us) :: constructs ts := rfl

/-- The kinds in a row are those of its constructs, each followed by the kinds inside it. -/
theorem kindsOf_eq (ts : List Tree) : kindsOf ts = (constructs ts).flatMap fun c => c.1 :: kindsOf c.2 := by
  induction ts with
  | nil => rfl
  | cons t ts ih =>
    cases t with
    | leaf t => rw [kindsOf, kinds, List.nil_append, ih, constructs]
    | node kind us => rw [kindsOf, kinds, ih, constructs, List.flatMap_cons]

/-- Leaves have no kinds. -/
@[simp] theorem kindsOf_leavesFor (ts : List Token) : kindsOf (leavesFor ts) = [] := by
  rw [kindsOf_eq, constructs_leavesFor, List.flatMap_nil]

/-- The kinds of a construct and of what is inside it are kinds of its row. -/
theorem mem_kindsOf {ts : List Tree} {c : NodeKind × List Tree} (h : c ∈ constructs ts) {kind : NodeKind}
    (hk : kind ∈ c.1 :: kindsOf c.2) : kind ∈ kindsOf ts :=
  kindsOf_eq ts ▸ List.mem_flatMap.mpr ⟨c, h, hk⟩

/-- A row without node kinds has no constructs. -/
theorem constructs_eq_nil {ts : List Tree} (h : kindsOf ts = []) : constructs ts = [] := by
  rw [kindsOf_eq] at h
  cases hc : constructs ts with
  | nil => rfl
  | cons c cs => simp [hc] at h

/-- A kind that stands inside no construct of a row is in the row as often as it is the kind of a construct. -/
theorem count_kindsOf {kind : NodeKind} {ts : List Tree} (h : ∀ c ∈ constructs ts, kind ∉ kindsOf c.2) :
    (kindsOf ts).count kind = ((constructs ts).filter (·.1 = kind)).length := by
  rw [kindsOf_eq]
  generalize constructs ts = cs at h ⊢
  induction cs with
  | nil => rfl
  | cons c cs ih =>
    have hc := List.count_eq_zero.mpr (h c (List.mem_cons_self ..))
    have hcs := ih fun d hd => h d (List.mem_cons_of_mem _ hd)
    by_cases hk : c.1 = kind <;> simp [hc, hcs, hk]

end Tree

namespace Node

/-- A node without its place. -/
def construct (n : Node) : NodeKind × List Tree := (n.kind, n.children)

/-- The parts of a node that are nodes are the constructs of its row. -/
theorem constructs_eq (n : Node) : n.nodes.map construct = Tree.constructs n.children := by
  obtain ⟨kind, ts, start⟩ := n
  unfold nodes parts
  simp only
  induction ts generalizing start with
  | nil => rfl
  | cons t ts ih =>
    cases t with
    | leaf t => exact ih _
    | node kind us => exact congrArg ((kind, us) :: ·) (ih _)

/-- The first part of a node whose kind is such and such is the first such construct. -/
theorem find?_eq (p : NodeKind → Bool) (n : Node) :
    (n.nodes.find? fun m => p m.kind).map construct = (Tree.constructs n.children).find? fun c => p c.1 := by
  rw [← constructs_eq, List.find?_map]
  rfl

/-- The first part of a node of a kind is the first such construct. -/
theorem child?_eq (kind : NodeKind) (n : Node) :
    (n.child? kind).map construct = (Tree.constructs n.children).find? (·.1 = kind) :=
  find?_eq (· = kind) n

/-- The parts of a node of a kind are the constructs of that kind. -/
theorem childrenOf_eq (kind : NodeKind) (n : Node) :
    (n.childrenOf kind).map construct = (Tree.constructs n.children).filter (·.1 = kind) := by
  rw [← constructs_eq, List.filter_map]
  rfl

/-- The tokens that are parts of a node are those of its row. -/
theorem tokens_eq (n : Node) : n.tokens = Tree.ownTokens n.children := by
  obtain ⟨kind, ts, start⟩ := n
  unfold tokens parts
  simp only
  induction ts generalizing start with
  | nil => rfl
  | cons t ts ih =>
    cases t with
    | leaf t => exact congrArg (t :: ·) (ih _)
    | node kind us => exact ih _

/-- The tokens of a node that has leaves only. -/
@[simp] theorem tokens_leavesFor (kind : NodeKind) (ts : List Token) (start : Nat) : tokens ⟨kind, leavesFor ts, start⟩ = ts := by
  rw [tokens_eq, Tree.ownTokens_leavesFor]

/-- Where a construct is the first of its kind, it is what the view of that kind finds. -/
theorem child?_of_find {kind : NodeKind} {n : Node} {us : List Tree}
    (h : (Tree.constructs n.children).find? (·.1 = kind) = some (kind, us)) : ∃ m, n.child? kind = some m ∧ m.children = us := by
  obtain ⟨m, hm, hc⟩ := Option.map_eq_some_iff.mp ((child?_eq kind n).trans h)
  exact ⟨m, hm, congrArg Prod.snd hc⟩

/-- It finds a node if there is such a construct. -/
theorem child?_isSome {kind : NodeKind} {n : Node} {us : List Tree} (h : (kind, us) ∈ Tree.constructs n.children) :
    (n.child? kind).isSome = true := by
  have hsome : ((Tree.constructs n.children).find? (·.1 = kind)).isSome = true := List.find?_isSome.mpr ⟨_, h, by simp⟩
  rwa [← child?_eq, Option.isSome_map] at hsome

/-- The node that the view of a kind finds is of that kind. -/
theorem kind_of_child? {kind : NodeKind} {n m : Node} (h : n.child? kind = some m) : m.kind = kind :=
  of_decide_eq_true (List.find?_some (p := fun m : Node => decide (m.kind = kind)) h)

/-- What it finds is the first construct of that kind. -/
theorem find?_of_child? {kind : NodeKind} {n m : Node} (h : n.child? kind = some m) :
    (Tree.constructs n.children).find? (·.1 = kind) = some (kind, m.children) := by
  rw [← child?_eq, h, ← kind_of_child? h]
  rfl

/-! ## What was found where something was read -/

/-- A parameter is read from a node: its name from the name in the node, and its type from the declaration of one. -/
structure ReadsParam (n : Node) (p : Param) : Prop where
  name : ∃ m, n.qname? = some m ∧ m.toQName? = some p.name
  type : n.toDeclaredType? = some p.type

theorem readsParam {n : Node} {p : Param} (h : n.toParam? = some p) : n.ReadsParam p := by
  simp only [toParam?, Option.bind_eq_bind, Option.bind_eq_some_iff] at h
  obtain ⟨m, hm, q, hq, t, ht, h⟩ := h
  cases h
  exact ⟨⟨m, hm, hq⟩, ht⟩

/-- A function is read from a node: its name, its parameters one by one, the type of its result and its body from those in the node. It
stands where the node does. -/
structure ReadsFunction (n : Node) (f : FunctionDecl) : Prop where
  name : ∃ m, n.qname? = some m ∧ m.toQName? = some f.name
  params : n.params.mapM toParam? = some f.params
  result : n.toDeclaredType? = some f.returnType
  body : ∃ m, n.functionBody? = some m ∧ f.body = m.toFunctionBody
  span : f.span = n.span

theorem readsFunction {n : Node} {f : FunctionDecl} (h : n.toFunctionDecl? = some f) : n.ReadsFunction f := by
  simp only [toFunctionDecl?, Option.bind_eq_bind, Option.bind_eq_some_iff] at h
  obtain ⟨m, hm, q, hq, ps, hps, t, ht, b, hb, h⟩ := h
  cases h
  exact ⟨⟨m, hm, hq⟩, hps, ht, ⟨b, hb, rfl⟩, rfl⟩

end Node

/-- Results that are all there are collected one for one. -/
theorem mapM_eq_some {α β : Type} {f : α → Option β} {R : α → β → Prop} {xs : List α}
    (h : ∀ x ∈ xs, ∃ y, f x = some y ∧ R x y) : ∃ ys, xs.mapM f = some ys ∧ List.Forall₂ R xs ys := by
  induction xs with
  | nil => exact ⟨[], rfl, .nil⟩
  | cons x xs ih =>
    obtain ⟨y, hy, hr⟩ := h x (List.mem_cons_self ..)
    obtain ⟨ys, hys, hrs⟩ := ih fun z hz => h z (List.mem_cons_of_mem _ hz)
    exact ⟨y :: ys, by simp [List.mapM_cons, hy, hys], .cons hr hrs⟩

/-- Where every result is there, none is passed over. -/
theorem filterMap_all {α β : Type} {f : α → Option β} {R : α → β → Prop} {xs : List α}
    (h : ∀ x ∈ xs, ∃ y, f x = some y ∧ R x y) : List.Forall₂ R xs (xs.filterMap f) := by
  induction xs with
  | nil => exact .nil
  | cons x xs ih =>
    obtain ⟨y, hy, hr⟩ := h x (List.mem_cons_self ..)
    rw [List.filterMap_cons_some hy]
    exact .cons hr (ih fun z hz => h z (List.mem_cons_of_mem _ hz))

/-- If corresponding elements pass a test together, those that pass it correspond. -/
theorem forall₂_filter {α β : Type} {R : α → β → Prop} {p : α → Bool} {q : β → Bool} (h : ∀ a b, R a b → p a = q b) {xs : List α}
    {ys : List β} (hr : List.Forall₂ R xs ys) : List.Forall₂ (fun a b => R a b ∧ p a = true) (xs.filter p) (ys.filter q) := by
  induction hr with
  | nil => exact .nil
  | @cons a b xs ys hab _ ih =>
    rw [List.filter_cons, List.filter_cons, ← h a b hab]
    split
    · next hp => exact .cons ⟨hab, hp⟩ ih
    · exact ih

/-- The functions of a module that was read are those that its prolog declares. -/
theorem Parsed.functions_root {p : Parsed} {prolog : Node} (h : p.root.prolog? = some prolog) :
    p.module.functions = prolog.functionDecls.filterMap Node.toFunctionDecl? := by
  rw [module, Module.ofTree, ← root, Module.ofNode, h]
  rfl

/-- What corresponds to an element is an element. -/
theorem forall₂_mem {α β : Type} {R : α → β → Prop} {xs : List α} {ys : List β} (hr : List.Forall₂ R xs ys) :
    ∀ x ∈ xs, ∃ y ∈ ys, R x y := by
  induction hr with
  | nil => exact List.forall_mem_nil _
  | cons hab _ ih =>
    refine List.forall_mem_cons.mpr ⟨⟨_, List.mem_cons_self .., hab⟩, fun x hx => ?_⟩
    obtain ⟨y, hy, hxy⟩ := ih x hx
    exact ⟨y, List.mem_cons_of_mem _ hy, hxy⟩

end QueryStubs
