import QueryStubs.Proofs.Scan.Offsets
import QueryStubs.Proofs.Built.Whole
import QueryStubs.Proofs.Reader.Whole

/-!
# What reading a source always gives

Whatever the source is, reading it is one run of allowed moves that leaves nothing over (`whole_run`), and in the end every node that was
started is finished (`builder_done`). Two things follow: the tree holds the tokens of the source and nothing else (`Parsed.lossless`), and no
condition that the grammar puts on itself ever fails (`Parsed.reading_safe`).
-/

namespace QueryStubs

namespace Grammar

/-- The cursor behind the last token of a source. -/
def Cursor.done (source : String) : Cursor := (wholeModule (.start source)).2

/-- Reading a source is a run that leaves neither a lexeme nor trivia. -/
theorem whole_run (source : String) : Run (.start source) (.done source) ∧ (Cursor.done source).left = [] := by
  obtain ⟨hr, -, ha, ht⟩ := wholeModule_safe (.start source) (start_ordered source) (start_aligned source) (Nat.le_refl _)
    (Nat.le_refl _)
  have ha : (Cursor.done source).ahead = [] := ha
  have ht : (Cursor.done source).tail = [] := ht
  refine ⟨hr, ?_⟩
  rw [Reading.left, ha, ht]
  rfl

/-- All that was read is the inside of one node. -/
theorem parts_done (source : String) : ∃ parts, (Cursor.done source).parts = [.node .root parts] := ⟨_, rfl⟩

/-- No condition that the rules put on themselves failed. -/
theorem defects_done (source : String) : (Cursor.done source).defects = [] := (whole_run source).1.frame.1

/-- The builder has written the same, found nothing wrong, and no node is open. -/
theorem builder_done (source : String) : (Cursor.done source).Agrees ∧ (Cursor.done source).builder.opened = [] := by
  have hstart : (Cursor.start source).Agrees := ⟨rfl, rfl, rfl⟩
  obtain ⟨hagrees, hopened, -⟩ := wholeModule_writes (.start source) hstart rfl
  exact ⟨hagrees, hopened⟩

/-- So it has one tree to give, and it is the one that was read. -/
theorem tree?_done {source : String} {tree : Tree} (h : (Cursor.done source).parts = [tree]) :
    (Cursor.done source).builder.tree? = some tree := by
  obtain ⟨hagrees, hopened⟩ := builder_done source
  have hnone : (Cursor.done source).nextTrivia = [] := by
    obtain ⟨hahead, htail⟩ := List.append_eq_nil_iff.mp (whole_run source).2
    have htrivia : ∀ ls : List Lexeme, ls.flatMap Lexeme.tokens = [] → ls = [] := fun ls hl => by
      cases ls with
      | nil => rfl
      | cons l ls => simp [Lexeme.tokens] at hl
    rw [Cursor.nextTrivia, htrivia _ hahead]
    exact htail
  have hbuffer : (Cursor.done source).builder.buffer = [] := by
    rw [hagrees.buffer, hnone]
    exact ite_self []
  have hdrained : (Cursor.done source).builder.drain.written = [tree] := by
    rw [Builder.drain, hbuffer, hagrees.written, h]
    rfl
  rw [Builder.tree?, hopened, hdrained]

end Grammar

namespace Parsed

open Grammar

/-- The tree of a source is the node that its reading ends with. -/
theorem tree_ofSource (source : String) : (Cursor.done source).parts = [(ofSource source).tree] := by
  obtain ⟨parts, hp⟩ := parts_done source
  have htree : (ofSource source).tree = (Cursor.done source).builder.tree?.getD (.node .root (Cursor.done source).parts) := rfl
  rw [htree, tree?_done hp]
  exact hp

/-- The leaves of the tree are the tokens of the source one by one, names taken as keywords apart. -/
theorem recorded_leaves (source : String) : List.Forall₂ Token.Recorded (Token.ofSource source) (ofSource source).tree.leaves := by
  obtain ⟨hr, hl⟩ := whole_run source
  obtain ⟨new, taken, hp, ht, hrec⟩ := hr.conserves
  have hparts : new = [(ofSource source).tree] := by
    rw [tree_ofSource] at hp
    simpa [Cursor.start] using hp.symm
  rw [start_left, hl, List.append_nil] at ht
  rw [ht]
  simpa [hparts, Tree.leavesOf] using hrec

/-- So the text of the tree is the source. -/
theorem text_tree (source : String) : (ofSource source).tree.text = source :=
  (Token.Recorded.textOf (recorded_leaves source)).trans (Token.textOf_ofSource source)

/-- No defect of the grammar is ever recorded. -/
theorem defects_ofSource (source : String) : (ofSource source).defects = [] := by
  obtain ⟨parts, hp⟩ := parts_done source
  have hbuilt : (Cursor.done source).builder.defects = [] := (builder_done source).1.faultless
  have hdefects : (ofSource source).defects = (Cursor.done source).defects ++ (Cursor.done source).builder.defects ++
      if (Cursor.done source).builder.tree?.isSome then [] else [.unbalanced] := rfl
  rw [hdefects, defects_done, hbuilt, tree?_done hp]
  rfl

/-- A node that is never finished would be one. -/
theorem unbalanced_of_opened {c : Cursor} (h : c.builder.opened ≠ []) : .unbalanced ∈ (ofCursor c).defects := by
  obtain ⟨x, opened, hopened⟩ := List.exists_cons_of_ne_nil h
  have hnone : c.builder.tree? = none := by rw [Builder.tree?, hopened]
  have hdefects : (ofCursor c).defects = c.defects ++ c.builder.defects ++ if c.builder.tree?.isSome then [] else [.unbalanced] := rfl
  rw [hdefects, hnone]
  exact List.mem_append_right _ (List.mem_singleton.mpr rfl)

/-- All that is read becomes the inside of one root node. -/
theorem root_ofSource (source : String) :
    ∃ parts, (Cursor.done source).parts = [.node .root parts] ∧ (ofSource source).tree = .node .root parts := by
  obtain ⟨parts, hp⟩ := parts_done source
  have ht := tree_ofSource source
  rw [hp] at ht
  exact ⟨parts, hp, (List.singleton_inj.mp ht).symm⟩

/-- The tree is lossless, also with offsets of 32 bits, as long as these can tell the places of the source apart: its leaves are the tokens
of the source one by one, names taken as keywords apart, and so its text is the source. -/
theorem lossless {source : String} (h : Addressable source) :
    wrapped? source = some (ofSource source) ∧
      List.Forall₂ Token.Recorded (Token.ofSource source) (ofSource source).tree.leaves ∧ (ofSource source).tree.text = source :=
  ⟨wrapped?_eq h, recorded_leaves source, text_tree source⟩

/-- Text behind the prolog of a library module, in which a literal is not closed, is in the tree as well. -/
theorem lossless_garbage :
    Addressable "module namespace m='u'; f('" ∧ wrapped? "module namespace m='u'; f('" = some (ofSource "module namespace m='u'; f('") ∧
      (ofSource "module namespace m='u'; f('").tree.text = "module namespace m='u'; f('" := by
  have h : Addressable "module namespace m='u'; f('" := by decide
  exact ⟨h, (lossless h).1, (lossless h).2.2⟩

/-- Reading never goes wrong, as long as offsets of 32 bits can tell the places of the source apart: no range of a token ends before it
starts, there is patience for every look, a lexeme wherever one is taken, the kind that is demanded wherever one is, the end of every
literal, and a node to finish wherever one is finished. No report ends before it starts. In the end every node that was started is finished,
and the tree is one root node. -/
theorem reading_safe {source : String} (h : Addressable source) :
    wrapped? source = some (ofSource source) ∧ (ofSource source).defects = [] ∧
      ((Cursor.done source).builder.opened = [] ∧ (Cursor.done source).builder.tree? = some (ofSource source).tree) ∧
        (∃ parts, (Cursor.done source).parts = [.node .root parts] ∧ (ofSource source).tree = .node .root parts) ∧
          ∀ r ∈ (ofSource source).reports, r.Forward := by
  refine ⟨wrapped?_eq h, defects_ofSource source, ⟨(builder_done source).2, tree?_done (tree_ofSource source)⟩, root_ofSource source, ?_⟩
  obtain ⟨new, hn, hf⟩ := (whole_run source).1.reports
  have hn : (ofSource source).reports = new := hn
  exact fun r h => hf r (hn ▸ h)

/-- Brackets that are never closed, a declaration that breaks off and a literal without an end are no exception. -/
theorem reading_safe_unclosed :
    Addressable "declare function f($a as item(\x22" ∧ (ofSource "declare function f($a as item(\x22").defects = [] ∧
      ∃ parts, (ofSource "declare function f($a as item(\x22").tree = .node .root parts := by
  have h : Addressable "declare function f($a as item(\x22" := by decide
  obtain ⟨-, hdefects, -, ⟨parts, -, htree⟩, -⟩ := reading_safe h
  exact ⟨h, hdefects, parts, htree⟩

end Parsed

end QueryStubs
