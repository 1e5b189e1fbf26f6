import Mathlib
import QueryStubs.Proofs.Segments.Joined
import QueryStubs.Proofs.Views.Similar

/-!
# Declarations keep to themselves

A broken declaration does not swallow, split or alter its neighbours (`Parsed.segments_isolated`). Each segment alone is read as a module
with one node in its prolog, and segments put end to end are read as a module with just these nodes in its prolog, one after another. So
the functions are those of the segments one after another, each with its range moved on by what stands in front of its segment.
-/

namespace QueryStubs

open Grammar

/-- A function that stands further behind. -/
def FunctionDecl.moved (offset : Nat) (f : FunctionDecl) : FunctionDecl :=
  { f with span := ⟨f.span.start + offset, f.span.stop + offset⟩ }

/-- The trees in the prolog that was read. -/
def Parsed.prologTrees (p : Parsed) : List Tree := p.root.prolog?.elim [] (·.children)

/-- The functions of sources that are read one by one, each at the place it has if the sources stand one behind the other from an offset on. -/
def Module.functionsInTurn : Nat → List String → List FunctionDecl
  | _, [] => []
  | offset, s :: ss => (Parsed.ofSource s).module.functions.map (·.moved offset) ++ functionsInTurn (offset + s.utf8ByteSize) ss

/-! ## The functions of a row of trees -/

/-- The parts of trees in a row are those of the first trees and those of the others further on. -/
theorem Part.ofTrees_append (offset : Nat) (ts us : List Tree) :
    ofTrees offset (ts ++ us) = ofTrees offset ts ++ ofTrees (offset + Token.sizeOf (Tree.leavesOf ts)) us := by
  induction ts generalizing offset with
  | nil => rfl
  | cons t ts ih =>
    rw [Tree.leavesOf, Token.sizeOf_append, ← Nat.add_assoc]
    cases t with
    | leaf t => rw [List.cons_append, ofTrees, ih, ofTrees, Tree.leaves, Token.sizeOf_cons, Token.sizeOf_nil, Nat.add_zero]; rfl
    | node kind vs => rw [List.cons_append, ofTrees, ih, ofTrees, Tree.leaves_node]; rfl

/-- Further behind, a node declares the same function further behind. -/
theorem Node.toFunctionDecl?_moved (kind : NodeKind) (us : List Tree) (place offset : Nat) :
    toFunctionDecl? ⟨kind, us, place + offset⟩ = (toFunctionDecl? ⟨kind, us, place⟩).map (·.moved offset) := by
  have hsame : toFunctionDecl? ⟨kind, us, place + offset⟩ =
      (toFunctionDecl? ⟨kind, us, place⟩).map fun f => { f with span := (⟨kind, us, place + offset⟩ : Node).span } :=
    toFunctionDecl?_similar rfl
  rw [hsame]
  refine Option.map_congr fun f hf => ?_
  rw [FunctionDecl.moved, (readsFunction hf).span]
  simp only [span, leaves, Nat.add_right_comm]

namespace Grammar

/-- The functions that are declared in a row of trees that starts at an offset. -/
def functionsFrom (offset : Nat) (us : List Tree) : List FunctionDecl :=
  (⟨.prolog, us, offset⟩ : Node).functionDecls.filterMap Node.toFunctionDecl?

theorem functionsFrom_append (offset : Nat) (ts us : List Tree) :
    functionsFrom offset (ts ++ us) = functionsFrom offset ts ++ functionsFrom (offset + Token.sizeOf (Tree.leavesOf ts)) us := by
  simp only [functionsFrom, Node.functionDecls, Node.childrenOf, Node.nodes, Node.parts, Part.ofTrees_append, List.filterMap_append,
    List.filter_append]

/-- Further behind, the same functions are declared further behind. -/
theorem functionsFrom_moved (kind : NodeKind) (us : List Tree) (offset : Nat) :
    functionsFrom offset [.node kind us] = (functionsFrom 0 [.node kind us]).map (·.moved offset) := by
  have hdecls : ∀ place, (⟨.prolog, [.node kind us], place⟩ : Node).functionDecls =
      if kind = .functionDecl then [⟨kind, us, place⟩] else [] := by
    intro place
    by_cases hk : kind = .functionDecl <;>
      simp [hk, Node.functionDecls, Node.childrenOf, Node.nodes, Node.parts, Part.ofTrees, Part.node?]
  rw [functionsFrom, functionsFrom, hdecls, hdecls]
  split
  · have hmoved := Node.toFunctionDecl?_moved kind us 0 offset
    rw [Nat.zero_add] at hmoved
    simp only [List.filterMap_cons, List.filterMap_nil, hmoved]
    cases Node.toFunctionDecl? ⟨kind, us, 0⟩ <;> rfl
  · rfl

end Grammar

namespace Parsed

/-- The functions of a module that has nothing but a prolog. -/
theorem functions_of_tree {p : Parsed} {us : List Tree} (h : p.tree = .node .root [.node .prolog us]) :
    p.module.functions = functionsFrom 0 us ∧ p.prologTrees = us := by
  have hprolog : p.root.prolog? = some ⟨.prolog, us, 0⟩ := by rw [root, h]; rfl
  exact ⟨functions_root hprolog, by rw [prologTrees, hprolog]; rfl⟩

/-- A segment alone is a module with nothing but a prolog. -/
theorem tree_segment {s : String} (hs : IsSegment s) : (ofSource s).tree = .node .root [.node .prolog (declTrees s)] := by
  have htree := tree_segments (List.forall_mem_singleton.mpr hs)
  rwa [List.flatMap_singleton, String.join_cons, String.join_nil, String.append_empty] at htree

/-- What is made of a segment takes as much room as the segment. -/
theorem size_declTrees {s : String} (hs : IsSegment s) : Token.sizeOf (Tree.leavesOf (declTrees s)) = s.utf8ByteSize := by
  have htext := text_tree s
  rw [tree_segment hs] at htext
  have hleaves : (Tree.node .root [.node .prolog (declTrees s)]).leaves = Tree.leavesOf (declTrees s) := by simp [Tree.leavesOf]
  rw [Token.sizeOf_eq, ← hleaves]
  exact congrArg String.utf8ByteSize htext

/-- The functions of what is made of segments are those of the segments in turn. -/
theorem functionsFrom_segments {segments : List String} (hs : ∀ s ∈ segments, IsSegment s) (offset : Nat) :
    functionsFrom offset (segments.flatMap declTrees) = Module.functionsInTurn offset segments := by
  induction segments generalizing offset with
  | nil => rfl
  | cons s segments ih =>
    obtain ⟨hs, hsegments⟩ := List.forall_mem_cons.mp hs
    obtain ⟨kind, us, hone⟩ := declTrees_segment hs
    rw [List.flatMap_cons, functionsFrom_append, ih hsegments, size_declTrees hs, Module.functionsInTurn,
      (functions_of_tree (tree_segment hs)).1, hone, functionsFrom_moved]

/-- Declarations keep to themselves, be they right or wrong: segments put end to end have the nodes that each of them has alone, and the
functions too, each moved on by what stands in front of its segment. -/
theorem segments_isolated {segments : List String} (h : ∀ s ∈ segments, IsSegment s) :
    (∀ s ∈ segments, ∃ kind us, (ofSource s).tree = .node .root [.node .prolog [.node kind us]]) ∧
      (ofSource (String.join segments)).tree = .node .root [.node .prolog (segments.flatMap fun s => (ofSource s).prologTrees)] ∧
        (ofSource (String.join segments)).module.functions = Module.functionsInTurn 0 segments := by
  have htree := tree_segments h
  refine ⟨fun s hs => ?_, ?_, ?_⟩
  · obtain ⟨kind, us, hone⟩ := declTrees_segment (h s hs)
    exact ⟨kind, us, hone ▸ tree_segment (h s hs)⟩
  · have hnodes : segments.flatMap (fun s => (ofSource s).prologTrees) = segments.flatMap declTrees :=
      List.flatMap_congr fun s hs => (functions_of_tree (tree_segment (h s hs))).2
    rw [htree, hnodes]
  · rw [(functions_of_tree htree).1, functionsFrom_segments h]

set_option maxRecDepth 10000 in
/-- Nonsense between two functions leaves both as they are. -/
theorem segments_isolated_broken :
    (∀ s ∈ ["declare function a() external;", "declare ( [ ) function ] b;", "declare function c($x) { 1 };"], IsSegment s) ∧
      (ofSource (String.join ["declare function a() external;", "declare ( [ ) function ] b;",
        "declare function c($x) { 1 };"])).module.functions.map (fun f => (f.name.localPart, f.span)) = [("a", ⟨0, 30⟩), ("c", ⟨57, 86⟩)] := by
  have h : ∀ s ∈ ["declare function a() external;", "declare ( [ ) function ] b;", "declare function c($x) { 1 };"], IsSegment s := by
    simp only [List.forall_mem_cons, isSegment_iff]
    exact ⟨by cbv, by cbv, by cbv, List.forall_mem_nil _⟩
  refine ⟨h, ?_⟩
  rw [(segments_isolated h).2.2]
  cbv

end Parsed

end QueryStubs
