import QueryStubs.Proofs.Faultless.Outlines
import QueryStubs.Proofs.Opaque.Spelling
import QueryStubs.Proofs.Syntax.Accepted

/-!
# Nodes deep inside a tree

What is said of every node in a form (`Form.Every`) is true of every node of a tree that was built of it, however deep: each was built of
such a form somewhere in the source (`Node.Inside`, `Node.Inside.holds`). Only a node that the trivia in front of it belong to may have been
built where trivia come first.
-/

namespace QueryStubs

open Grammar
open QueryStubs.Tree (constructs)

namespace Grammar

/-- The row of trees was built somewhere of what is inside such a node, and where no trivia came first unless they belong to it. -/
def Form.BuiltInside (P : Bool → NodeKind → Form → Prop) (kind : NodeKind) (ts : List Tree) : Prop :=
  ∃ led f o o', P led kind f ∧ f.Every P ∧ o.Scanned ∧ (led = false → o.trivia = []) ∧ f.Builds o ts o'

variable {P : Bool → NodeKind → Form → Prop}

/-- Every construct of a row that is built of such a form was built so. -/
theorem Form.Builds.inside {f : Form} {o o' : Outlook} {ts : List Tree} (h : f.Builds o ts o') (ho : o.Scanned) (hf : f.Every P) :
    ∀ c ∈ constructs ts, Form.BuiltInside P c.1 c.2 := by
  induction h with
  | nothing | manyNil => exact List.forall_mem_nil _
  | one | keyword | prefixed | run | trivia => simp
  | seq hb _ ih ih' =>
    rw [Tree.constructs_append]
    exact List.forall_mem_append.mpr ⟨ih ho hf.1, ih' (hb.scanned ho) hf.2⟩
  | manyCons hb _ ih ih' =>
    rw [Tree.constructs_append]
    exact List.forall_mem_append.mpr ⟨ih ho hf, ih' (hb.scanned ho) hf⟩
  | first _ ih => exact ih ho hf.1
  | second _ ih => exact ih ho hf.2
  | guard _ _ ih => exact ih ho hf
  | @node kind f o o' us hb =>
    rw [Tree.constructs_append, Tree.constructs_leavesFor, List.nil_append]
    exact List.forall_mem_singleton.mpr ⟨false, f, _, _, hf.1, hf.2, ho.placed, fun _ => o.trivia_placed, hb⟩
  | @leadNode kind f o o' us hb => exact List.forall_mem_singleton.mpr ⟨true, f, _, _, hf.1, hf.2, ho, nofun, hb⟩

end Grammar

/-- What a node holds is the view of a kind in it. -/
theorem Node.Holds.child {n m k : Node} {kind : NodeKind} (h : n.Holds m) (hk : m.child? kind = some k) : n.Holds k :=
  h.tail (List.mem_of_find?_eq_some hk)

/-- What is inside the node was built so. -/
def Node.Inside (P : Bool → NodeKind → Form → Prop) (n : Node) : Prop := Form.BuiltInside P n.kind n.children

/-- So was what is inside the nodes that it holds. -/
theorem Node.Inside.holds {P : Bool → NodeKind → Form → Prop} {n m : Node} (h : n.Inside P) (hm : n.Holds m) : m.Inside P := by
  induction hm with
  | refl => exact h
  | @tail k m _ hm ih =>
    obtain ⟨led, f, o, o', -, hevery, ho, -, hb⟩ := ih
    exact hb.inside ho hevery m.construct (k.constructs_eq ▸ List.mem_map_of_mem hm)

/-- What holds of every node in the form of modules holds of every node in the tree of a source without errors. -/
theorem Parsed.inside_root {P : Bool → NodeKind → Form → Prop} {source : String} (h : (ofSource source).hasErrors = false)
    (hwhole : Form.whole.Every P) : (ofSource source).root.Inside P := by
  obtain ⟨o, hb, -⟩ := builds_of_faultless h
  have hroot := hb.inside (start_scanned source).1 hwhole
  cases htree : (ofSource source).tree with
  | leaf t =>
    rw [htree] at hb
    cases hb
  | node kind ts =>
    rw [htree] at hroot
    rw [root, htree]
    exact hroot (kind, ts) (by simp)

end QueryStubs
