import Mathlib
import QueryStubs.Module.OfTree
import QueryStubs.Proofs.Syntax.Whole

/-!
# Which sources are accepted

A source is read without an error just where its lexemes are those of a module (`Parsed.accepted_iff`), and the tree is the one that the
form builds then (`Parsed.ofSource_of_builds`). The guards of the form are needed: by its lexemes alone, the source `module namespace` is
a main module that consists of a query body, but its two words announce a module declaration (`Parsed.announced_refused`).
-/

namespace QueryStubs

namespace Grammar

/-- A form without its guards: what is left is decided by lexemes alone. -/
def Form.unguarded : Form → Form
  | .seq f g => .seq f.unguarded g.unguarded
  | .either f g => .either f.unguarded g.unguarded
  | .many f => .many f.unguarded
  | .node kind f => .node kind f.unguarded
  | .leadNode kind f => .leadNode kind f.unguarded
  | .guard _ f => f.unguarded
  | f => f

/-- Guards only take lexemes away from a form. -/
theorem Form.Takes.unguarded {f : Form} {as bs : List Lexeme} (h : f.Takes as bs) : f.unguarded.Takes as bs := by
  induction h with
  | nothing ls => exact .nothing ls
  | one ls hp => exact .one ls hp
  | keyword ls hn hw => exact .keyword ls hn hw
  | prefixed ls hf hc hct hl hlt => exact .prefixed ls hf hc hct hl hlt
  | run ls hp => exact .run ls hp
  | seq _ _ ih ih' => exact .seq ih ih'
  | first _ ih => exact .first ih
  | second _ ih => exact .second ih
  | manyNil ls => exact .manyNil ls
  | manyCons _ _ ih ih' => exact .manyCons ih ih'
  | node _ ih => exact .node ih
  | leadNode _ ih => exact .leadNode ih
  | guard _ _ ih => exact ih
  | trivia ls => exact .trivia ls

/-- Nothing is ahead where no token comes next. -/
theorem Outlook.head_eq_none {o : Outlook} : o.head = none ↔ o.ahead = [] := by
  obtain ⟨_ | ⟨l, ls⟩, tail, reached⟩ := o <;> simp [Outlook.head]

/-- Nothing is left at the end of a reading. -/
theorem done_left (source : String) : (Cursor.done source).ahead = [] ∧ (Cursor.done source).tail = [] := by
  have h := (whole_run source).2
  rw [Reading.left, List.append_eq_nil_iff, List.flatMap_eq_nil_iff] at h
  refine ⟨List.eq_nil_iff_forall_not_mem.mpr fun l hl => ?_, h.2⟩
  simpa [Lexeme.tokens] using h.1 l hl

/-- If trees of a module can be built to the end of the source, the reading reports no error and ends with these trees. -/
theorem done_of_builds {source : String} {ts : List Tree} {o : Outlook} (h : Form.whole.Builds (Cursor.start source).outlook ts o)
    (ho : o.ahead = []) : ¬ (Cursor.done source).HasError ∧ (Cursor.done source).parts = ts := by
  obtain ⟨hn, -, hp⟩ := (wholeModule_reads (P := fun _ => True)).complete (.start source) ts o (start_clean source) trivial h
    (Outlook.head_eq_none.mpr ho)
  exact ⟨hn, hp⟩

/-- No error is reported just where the lexemes of the source are those of a module. -/
theorem faultless_iff (source : String) :
    ¬ (Cursor.done source).HasError ↔ Form.whole.Takes (Lexeme.ofTokens (Token.ofSource source)).1 [] := by
  constructor
  · intro hn
    obtain ⟨-, ts, hd⟩ := ((wholeModule_reads (P := fun _ => True)).sound (.start source) (start_clean source) trivial).resolve_left hn
    obtain ⟨bs, ht, hs⟩ := hd.builds.takes
    have ha : (Cursor.done source).outlook.ahead = [] := (done_left source).1
    rw [show (wholeModule (.start source)).2.outlook.ahead = [] from ha] at hs
    cases hs
    exact ht
  · intro ht
    obtain ⟨ts, o, hb, hs⟩ := ht.builds (o := (Cursor.start source).outlook) (.refl _)
    refine (done_of_builds hb ?_).1
    generalize ha : o.ahead = as at hs
    cases hs
    rfl

end Grammar

namespace Parsed

open Grammar

/-- Whether there is an error among the reports of a source. -/
theorem hasErrors_ofSource (source : String) : (ofSource source).hasErrors = false ↔ ¬ (Cursor.done source).HasError := by
  have hr : (ofSource source).reports = (Cursor.done source).reports := rfl
  rw [← Bool.not_eq_true, Parsed.hasErrors, List.any_eq_true, hr]
  rfl

/-- A source of which the trees of a module can be built has no error and gives these trees. -/
theorem ofSource_of_builds {source : String} {t : Tree} {o : Outlook} (h : Form.whole.Builds (Cursor.start source).outlook [t] o)
    (ho : o.ahead = []) : (ofSource source).hasErrors = false ∧ (ofSource source).tree = t := by
  obtain ⟨hn, hp⟩ := done_of_builds h ho
  refine ⟨(hasErrors_ofSource source).mpr hn, ?_⟩
  have ht := tree_ofSource source
  rw [hp] at ht
  exact (List.singleton_inj.mp ht).symm

/-- The tree of a source without errors is built of the form of modules, to the end of the source. -/
theorem builds_of_faultless {source : String} (h : (ofSource source).hasErrors = false) :
    ∃ o, Form.whole.Builds (Cursor.start source).outlook [(ofSource source).tree] o ∧ o.ahead = [] ∧ o.tail = [] := by
  have hclean := (hasErrors_ofSource source).mp h
  obtain ⟨-, ts, hd⟩ := ((wholeModule_reads (P := fun _ => True)).sound (.start source) (start_clean source) trivial).resolve_left hclean
  have hparts : (Cursor.done source).parts = ts := hd.parts
  rw [tree_ofSource] at hparts
  exact ⟨_, hparts ▸ hd.builds, done_left source⟩

/-- A source is read without an error just where its lexemes are those of a module. -/
theorem accepted_iff (source : String) :
    (ofSource source).hasErrors = false ↔ Form.whole.Takes (Lexeme.ofTokens (Token.ofSource source)).1 [] :=
  (hasErrors_ofSource source).trans (faultless_iff source)

/-- What the first words announce has to come: these two words alone would be a query body otherwise. -/
theorem announced_refused :
    (ofSource "module namespace").hasErrors = true ∧
      Form.whole.unguarded.Takes (Lexeme.ofTokens (Token.ofSource "module namespace")).1 [] := by
  refine ⟨by cbv, ?_⟩
  have hl : (Lexeme.ofTokens (Token.ofSource "module namespace")).1 =
      [⟨[], ⟨.name, "module"⟩, ⟨0, 6⟩⟩, ⟨[⟨.blank, " "⟩], ⟨.name, "namespace"⟩, ⟨7, 16⟩⟩] := by cbv
  rw [hl]
  generalize hls : [_, _] = ls
  have hkinds : ls.map (·.kind) = [.name, .name] := by
    rw [← hls]
    rfl
  have hrun : (Form.run fun ks => ks ≠ [] ∧ Balanced .braceOpen .braceClose ks).Takes (ls ++ []) [] :=
    .run [] (hkinds ▸ ⟨List.cons_ne_nil _ _, rfl⟩)
  rw [List.append_nil] at hrun
  have hmain : Form.mainModule.unguarded.Takes ls [] := .seq (.node (.seq (.manyNil _) (.manyNil _))) (.first (.node hrun))
  exact .leadNode (.seq (.second (.nothing _)) (.seq (.second hmain) (.trivia [])))

end Parsed

end QueryStubs
