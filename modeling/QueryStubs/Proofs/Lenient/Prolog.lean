import QueryStubs.Proofs.Lenient.Functions
import QueryStubs.Proofs.Opaque.Exchanged
import QueryStubs.Proofs.Recovery.Underway
import QueryStubs.Proofs.Segments.Alone

/-!
# The prolog of a broken source

Every function declaration in the prolog of a source is signed, whatever the source is (`Parsed.prologSigned`). What a declaration is made
of depends on its being read from a place at which trivia stand where trivia belong, and the loop over declarations is at such a place in
every round.
-/

namespace QueryStubs.Grammar

open QueryStubs

/-- A construct that is signed if it is a function declaration. -/
def DeclSigned (x : NodeKind × List Tree) : Prop := x.1 = .functionDecl → FunctionSigned x.2

/-- The words of a function declaration are there where one comes next. -/
theorem words_of_functionDecl {o : Outlook} (h : declAhead o.ahead = some .functionDecl) : o.WordAt 0 "declare" ∧ o.WordAt 1 "function" := by
  rw [wordAt_iff, wordAt_iff]
  unfold declAhead at h
  split at h
  · have hkind : importKind (wordIn 1 o.ahead) ≠ .functionDecl := by
      unfold importKind
      split <;> decide
    exact absurd (Option.some.inj h) hkind
  split at h
  · next hdeclare =>
    refine ⟨hdeclare, ?_⟩
    have hkind := Option.some.inj h
    unfold declareKind at hkind
    split at hkind
    case h_3 third =>
      unfold defaultKind at hkind
      split at hkind <;> cases hkind
    case h_9 hsecond => exact hsecond
    all_goals cases hkind
  · cases h

/-- A round of the loop over declarations adds a declaration that is signed. -/
theorem prologStep_signed {first late : Option Span} {c d : Cursor} (hl : c.outlook.Lexical) (hs : prologStep first c = ((true, late), d)) :
    ∃ ts, d.parts = c.parts ++ ts ∧ ∀ x ∈ Tree.constructs ts, DeclSigned x := by
  obtain ⟨kind, hk⟩ := prologStep_more hs
  obtain ⟨e, he, hrun, -⟩ := prologStep_run first hk
  obtain ⟨_, _, hafter, hparts, -⟩ := afterDecl_fields kind first e.nextSpan.start (declaration kind (declBody kind) e).2
  obtain ⟨-, rfl⟩ := Prod.mk.inj (hs.symm.trans (hrun.trans hafter))
  have ho : e.outlook = c.outlook := congrArg Reading.outlook he
  refine ⟨leavesFor c.outlook.trivia ++ [.node kind (throughSemicolon (declBody kind) (e.placeTrivia.startNode kind)).2.parts], ?_, ?_⟩
  · rw [hparts, parts_declaration, ho, he]
  · rw [Tree.constructs_append, Tree.constructs_leavesFor, List.nil_append]
    refine List.forall_mem_singleton.mpr fun hfunction => ?_
    obtain rfl : kind = .functionDecl := hfunction
    have hwords := words_of_functionDecl (o := c.outlook) hk
    rw [← ho] at hwords hl
    have hsigned := functionSigned_of_reads hwords hl
    rw [show functionDecl = declBody .functionDecl from rfl] at hsigned
    dsimp only at hsigned ⊢
    exact hsigned

/-- So all declarations of a prolog are signed. -/
theorem prologDecls_signed {c : Cursor} (h : c.AtProlog) : ∀ x ∈ Tree.constructs (prologDecls c).2.parts, DeclSigned x := by
  obtain ⟨ts, hts, hall⟩ : ∃ ts, (prologDecls c).2.parts = c.parts ++ ts ∧ ∀ x ∈ Tree.constructs ts, DeclSigned x := by
    refine prologLoop_induction (M := fun _ c d => ∃ ts, d.parts = c.parts ++ ts ∧ ∀ x ∈ Tree.constructs ts, DeclSigned x)
      (fun {first c d} _ _ hd => ?_) (fun {first c _ d e} hc hs ⟨us, hus, hall'⟩ => ?_) none c h.atDecl
    · exact ⟨[], by rw [hd, List.append_nil], List.forall_mem_nil _⟩
    · obtain ⟨ts, hts, hall⟩ := prologStep_signed hc.underway.scanned.lexical hs
      refine ⟨ts ++ us, by rw [hus, hts, List.append_assoc], ?_⟩
      rw [Tree.constructs_append]
      exact List.forall_mem_append.mpr ⟨hall, hall'⟩
  rw [hts, h.empty]
  exact hall

end QueryStubs.Grammar

namespace QueryStubs.Parsed

open Grammar

/-- Every function declaration in the prolog of a source is signed, whatever the source is. -/
theorem prologSigned {source : String} {prolog : Node} (h : (ofSource source).root.prolog? = some prolog) :
    ∀ n ∈ prolog.functionDecls, FunctionSigned n.children := by
  obtain ⟨front, e, behind, he, htree, hfirst, -⟩ := prolog_read source
  have hchildren : prolog.children = (prologDecls e).2.parts := by
    have hprolog := Node.child?_behind (n := (ofSource source).root) (by rw [root, htree]; rfl) hfirst
    exact congrArg Node.children (Option.some.inj (h.symm.trans hprolog))
  intro n hn
  obtain ⟨hn, hk⟩ := List.mem_filter.mp hn
  have hconstruct : n.construct ∈ Tree.constructs prolog.children := prolog.constructs_eq ▸ List.mem_map_of_mem hn
  rw [hchildren] at hconstruct
  exact prologDecls_signed he n.construct hconstruct (of_decide_eq_true hk)

end QueryStubs.Parsed
