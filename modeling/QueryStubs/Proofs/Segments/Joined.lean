import QueryStubs.Proofs.Segments.Alone
import QueryStubs.Proofs.Parsed

/-!
# Reading declarations one after another

Segments put end to end are read as a prolog of which each node is the one that is made of a segment alone (`prolog_segments`), and
nothing comes in front of that prolog or behind it (`Parsed.tree_segments`).
-/

namespace QueryStubs

namespace Grammar

/-- If nothing goes wrong in a loop, nothing does in its first round. -/
theorem repeatRule_first {step : σ → Rule (Bool × σ)} (h : ∀ a, Keeping (step a)) {a : σ} {c : Cursor}
    (hn : (repeatRule step a c).2.defects = []) : (step a c).2.defects = [] := by
  rw [repeatRule] at hn
  rcases hstep : step a c with ⟨⟨go, b⟩, d⟩
  rw [hstep] at hn
  cases go with
  | false => exact hn
  | true =>
    dsimp only at hn
    split at hn
    · exact repeatRule_keeping h b d hn
    · exact (demand_met hn).2

/-- Segments put end to end are read one after another, each of them as if it were alone. -/
theorem prolog_segments {segments : List String} (hs : ∀ s ∈ segments, IsSegment s) (first : Option Span) {offset : Nat} {c : Cursor}
    (hc : c.StandsAt (Lexeme.split offset [] (segments.flatMap Token.ofSource)).1) (hn : (repeatRule prologStep first c).2.defects = []) :
    (repeatRule prologStep first c).2.parts = c.parts ++ segments.flatMap declTrees ∧ (repeatRule prologStep first c).2.StandsAt [] := by
  induction segments generalizing first offset c with
  | nil =>
    obtain ⟨d, hstep, hd⟩ := prologStep_end first hc.ahead
    have hrun : repeatRule prologStep first c = (first, d) := by rw [repeatRule, hstep]
    rw [hrun, hd, List.flatMap_nil, List.append_nil]
    exact ⟨rfl, hc⟩
  | cons s segments ih =>
    obtain ⟨hs, hsegments⟩ := List.forall_mem_cons.mp hs
    obtain ⟨l, ls, hsplit, -, -, hseg⟩ := hs.lexemes offset
    rw [List.flatMap_cons, Lexeme.split_append, hsplit] at hc
    have hc' : c.StandsAt ((Lexeme.split offset [] (Token.ofSource s)).1 ++
        (Lexeme.split (offset + Token.sizeOf (Token.ofSource s)) [] (segments.flatMap Token.ofSource)).1) := by
      rw [hsplit]
      exact hc
    obtain ⟨late, d, hstep, hparts, hat, -⟩ := prologStep_alone hs first hc'
      (repeatRule_first (prologStep_keeping (equalRows _ hseg [] [])) hn)
    have hlt : d.ahead.length < c.ahead.length := by
      rw [hat.ahead, hc'.ahead, hsplit, List.length_append, List.length_cons]
      omega
    have hrun : repeatRule prologStep first c = repeatRule prologStep late d := by
      rw [repeatRule, hstep]
      exact if_pos hlt
    rw [hrun] at hn ⊢
    rw [List.flatMap_cons, ← List.append_assoc, ← hparts]
    exact ih hsegments late hat hn

/-- Nothing goes wrong where a source is read as a prolog. -/
theorem prologDecls_start (source : String) {c : Cursor} (hc : c.toReading = (Cursor.start source).toReading) (hn : c.defects = [])
    (hpatience : 140 ≤ c.patience) (hle : c.patience ≤ fullPatience) : (prologDecls c).2.defects = [] := by
  have hordered : c.Ordered := hc ▸ start_ordered source
  have haligned : c.outlook.Aligned := by
    rw [hc]
    exact start_aligned source
  obtain ⟨hrun, -⟩ := prologDecls_safe c hordered haligned hpatience hle
  exact hrun.frame.1.trans hn

/-- Of a segment one node is made. -/
theorem declTrees_segment {s : String} (hs : IsSegment s) : ∃ kind us, declTrees s = [.node kind us] := by
  obtain ⟨l, ls, hsplit, -, -, hseg⟩ := hs.lexemes 0
  have hcut : Lexeme.ofTokens (Token.ofSource s) = (l :: ls, []) := hsplit
  have hat : (Cursor.start s).StandsAt ((Lexeme.split 0 [] (Token.ofSource s)).1 ++ []) := by
    rw [hsplit, List.append_nil]
    refine ⟨?_, rfl, ?_⟩ <;> rw [Cursor.start, hcut]
  have hlong : 140 ≤ fullPatience := by decide
  have hn : (repeatRule prologStep none (.start s)).2.defects = [] := prologDecls_start s (c := .start s) rfl rfl hlong (Nat.le_refl _)
  obtain ⟨-, -, -, -, -, hone⟩ := prologStep_alone hs none hat (repeatRule_first (prologStep_keeping (equalRows _ hseg [] [])) hn)
  exact hone

/-- Where nothing is left, there is no query body. -/
theorem queryBody_end {c : Cursor} (ha : c.ahead = []) : (queryBody c).2.toReading = c.toReading := by
  unfold queryBody
  obtain ⟨_, d, he, hd, -⟩ := nextKind_looks.keeps.peel (c := c) rfl _
  obtain ⟨b, e, he', hd', hb⟩ := atEnd_looks.keeps.peel hd _
  have hb : b = true := hb.mpr ha
  rw [he, he', hb]
  exact hd'

/-- So the prolog of a main module that consists of segments is all of it. -/
theorem mainModule_segments {segments : List String} (hs : ∀ s ∈ segments, IsSegment s) {offset : Nat} {c : Cursor}
    (hc : c.StandsAt (Lexeme.split offset [] (segments.flatMap Token.ofSource)).1) (htrivia : c.nextTrivia = [])
    (hn : (prologDecls (c.startNode .prolog)).2.defects = []) :
    (mainModule c).2.parts = c.parts ++ [.node .prolog (segments.flatMap declTrees)] ∧ (mainModule c).2.StandsAt [] := by
  obtain ⟨hparts, hat⟩ := prolog_segments hs none (c := c.startNode .prolog) ⟨hc.ahead, hc.modulePrefix, hc.tail⟩ hn
  have hprolog : (node .prolog prologDecls c).2 = _ := node_of_none htrivia
  have hbody : (queryBody (node .prolog prologDecls c).2).2.toReading = (node .prolog prologDecls c).2.toReading :=
    queryBody_end (by rw [hprolog]; exact hat.ahead)
  rw [mainModule, bind_run, hbody, hprolog]
  refine ⟨?_, hat.ahead, hat.modulePrefix, hat.tail⟩
  have hinner : (prologDecls (c.startNode .prolog)).2.parts = segments.flatMap declTrees := hparts
  rw [← hinner]
  rfl

/-- A source that starts with a declaration is a main module without a version declaration. -/
theorem wholeModule_main {c : Cursor} (hpatience : c.patience = fullPatience) (hx : ¬ c.outlook.WordAt 0 "xquery")
    (hm : ¬ c.outlook.WordAt 0 "module") :
    ∃ d : Cursor, d.toReading = { c.toReading with parts := [] } ∧ d.defects = c.defects ∧ d.patience ≤ fullPatience ∧
      fullPatience ≤ d.patience + 5 ∧ (wholeModule c).2.parts = c.parts ++ [.node .root (mainModule d).2.placeTrivia.parts] := by
  obtain ⟨hr, hb, hle, hspent⟩ := seesVersionDecl_looks (c.startNode .root)
  obtain ⟨hr', hb', hle', hspent'⟩ := seesModuleDecl_looks (seesVersionDecl (c.startNode .root)).2
  have hpatience : (c.startNode .root).patience = fullPatience := hpatience
  obtain ⟨hd, hp⟩ := hspent (by rw [hpatience]; decide)
  have hfull : 5 ≤ fullPatience := by decide
  obtain ⟨hd', hp'⟩ := hspent' (by omega)
  have hversion : (seesVersionDecl (c.startNode .root)).1 = false := Bool.eq_false_iff.mpr fun h => hx (hb.mp h).1
  have hmodule : (seesModuleDecl (seesVersionDecl (c.startNode .root)).2).1 = false := by
    refine Bool.eq_false_iff.mpr fun h => hm ?_
    have hword := (hb'.mp h).1
    rw [hr] at hword
    exact hword
  refine ⟨(seesModuleDecl (seesVersionDecl (c.startNode .root)).2).2, hr'.trans hr, hd'.trans hd, by omega, by omega, ?_⟩
  have hrun : (wholeModule c).2.parts = c.parts ++ [.node .root ((seesVersionDecl >>= fun b =>
      if b = true then
        declaration .versionDecl versionDecl >>= fun _ => seesModuleDecl >>= fun b =>
          if b = true then libraryModule >>= fun _ => eatTrivia else mainModule >>= fun _ => eatTrivia
      else
        seesModuleDecl >>= fun b =>
          if b = true then libraryModule >>= fun _ => eatTrivia else mainModule >>= fun _ => eatTrivia : Rule Unit)
      (c.startNode .root)).2.parts] := rfl
  rw [hrun, bind_run, hversion, if_neg Bool.false_ne_true, bind_run, hmodule, if_neg Bool.false_ne_true]
  rfl

/-- At the start of segments put end to end, just their lexemes are ahead. -/
theorem start_segments {segments : List String} (hs : ∀ s ∈ segments, IsSegment s) :
    (Cursor.start (String.join segments)).StandsAt (Lexeme.split 0 [] (segments.flatMap Token.ofSource)).1 := by
  obtain ⟨htail, -⟩ := IsSegment.lexemes_flatMap hs 0
  refine ⟨?_, rfl, ?_⟩
  · rw [← Token.ofSource_join hs]
    rfl
  · rw [← htail, ← Token.ofSource_join hs]
    rfl

/-- A word comes first there only if a declaration starts with it. -/
theorem wordAt_segments {segments : List String} (hs : ∀ s ∈ segments, IsSegment s) {word : String} (hd : word ≠ "declare")
    (hi : word ≠ "import") : ¬ (Cursor.start (String.join segments)).outlook.WordAt 0 word := by
  intro h
  rw [Outlook.WordAt, Reading.outlook, (start_segments hs).ahead, ← List.head?_eq_getElem?] at h
  obtain ⟨l, hl, hw⟩ := (Option.any_eq_true _ _).mp h
  obtain ⟨-, hstarts⟩ := (IsSegment.lexemes_flatMap hs 0).2 l hl
  have hw : l.token.isWord word = true := hw
  rw [Token.isWord_of_startsDecl hstarts hd hi] at hw
  cases hw

end Grammar

namespace Parsed

open Grammar

/-- The tree of segments put end to end has just the nodes of the segments in its prolog. -/
theorem tree_segments {segments : List String} (hs : ∀ s ∈ segments, IsSegment s) :
    (ofSource (String.join segments)).tree = .node .root [.node .prolog (segments.flatMap declTrees)] := by
  have hat := start_segments hs
  obtain ⟨d, hd, hdefects, hle, hpatience, hparts⟩ := wholeModule_main (c := .start (String.join segments)) rfl
    (wordAt_segments hs (by decide) (by decide)) (wordAt_segments hs (by decide) (by decide))
  have hd : d.toReading = (Cursor.start (String.join segments)).toReading := hd
  have hn : (prologDecls (d.startNode .prolog)).2.defects = [] := by
    have hlong : 140 + 5 ≤ fullPatience := by decide
    refine prologDecls_start (String.join segments) (c := d.startNode .prolog) ?_ hdefects ?_ hle
    · rw [Cursor.toReading_startNode, hd]
      rfl
    · have hlong : 140 ≤ d.patience := by omega
      exact hlong
  have htrivia : d.nextTrivia = [] := by
    rw [Cursor.nextTrivia, hd, hat.ahead]
    split
    · exact hat.tail
    · next l ls hl => exact ((IsSegment.lexemes_flatMap hs 0).2 l (by rw [hl]; rfl)).1
  obtain ⟨hmain, hend⟩ := mainModule_segments hs (c := d) (hd ▸ hat) htrivia hn
  have hlast : (mainModule d).2.nextTrivia = [] := by
    rw [Cursor.nextTrivia, hend.ahead]
    exact hend.tail
  rw [placeTrivia_of_none hlast, hmain, hd] at hparts
  exact List.singleton_inj.mp ((tree_ofSource _).symm.trans hparts)

end Parsed

end QueryStubs
