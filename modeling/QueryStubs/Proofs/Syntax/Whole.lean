import QueryStubs.Proofs.Parsed
import QueryStubs.Proofs.Syntax.Prolog

/-!
# Reading whole modules

The reader of a module reads `Form.whole` (`wholeModule_reads`). The reader looks two words ahead to decide whether there is a version
declaration and whether the module is a library module, and does not come back to this; so do the guards of the form.
-/

namespace QueryStubs.Grammar

open QueryStubs

variable {S : Prop} {P : Outlook → Prop} {F : Option Token → Prop}

/-! ## Forms in other words -/

/-- Nothing and then a form is the form. -/
theorem Form.nothing_seq_iff {f : Form} {o o' : Outlook} {ts : List Tree} :
    (Form.seq .nothing f).Builds o ts o' ↔ f.Builds o ts o' := by
  refine ⟨fun h => ?_, fun h => .seq (.nothing o) h⟩
  cases h with
  | seq hn h =>
    cases hn
    exact h

/-- What follows either of two forms, of which the second is guarded, follows each of them. -/
theorem Form.guarded_seq_iff {f g r : Form} {T : List Token → Prop} {o o' : Outlook} {ts : List Tree} :
    (Form.either (.seq f r) (.guard T (.seq g r))).Builds o ts o' ↔ (Form.seq (.either f (.guard T g)) r).Builds o ts o' := by
  constructor
  · intro h
    cases h with
    | first h =>
      cases h with
      | seq hf hr => exact .seq (.first hf) hr
    | second h =>
      cases h with
      | guard hT h =>
        cases h with
        | seq hg hr => exact .seq (.second (.guard hT hg)) hr
  · intro h
    cases h with
    | seq h hr =>
      cases h with
      | first hf => exact .first (.seq hf hr)
      | second hg =>
        cases hg with
        | guard hT hg => exact .second (.guard hT (.seq hg hr))

/-- What the tokens that are left tell decides between a form and another that is guarded. -/
theorem Reads.guarded {f g : Form} {T : List Token → Prop} {t : Rule Bool} {x y : Rule α} {good : α → Bool}
    (ht : Keeps t fun b o => b = true ↔ T (o.ahead.map (·.token)))
    (hx : Reads S (fun o => P o ∧ T (o.ahead.map (·.token))) x good f F)
    (hf : ∀ o ts o', f.Builds o ts o' → T (o.ahead.map (·.token)))
    (hy : Reads S (fun o => P o ∧ ¬ T (o.ahead.map (·.token))) y good g F) :
    Reads S P (t >>= fun b => if b = true then x else y) good (.either f (.guard (¬ T ·) g)) F := by
  refine .look ht fun b => .ite (fun hb => ?_) fun hb => ?_
  · refine (hx.first fun o ts o' hp hb' ho => ?_).of_imp fun o h => ⟨h.1, h.2.mp hb⟩
    cases hb' with
    | guard hT => exact hT hp.2
  · refine ((hy.conv (fun o ts o' hp hb' => .guard hp.2 hb') fun o ts o' hp hb' _ => ?_).second fun o ts o' hp hb' _ =>
      hp.2 (hf _ _ _ hb')).of_imp fun o h => ⟨h.1, fun hT => ?_⟩
    · cases hb' with
      | guard _ hb' => exact hb'
    · simp [h.2.mpr hT] at hb

/-! ## Version declarations -/

/-- An encoding, where one comes next. -/
theorem encodingThere_reads :
    Reads S (fun o => P o ∧ IsWord "encoding" o.head) (takeKeyword >>= fun _ => stringLiteral "encoding name") id .encoding F :=
  .andNext (Q := fun _ => True) .takeWord (fun _ _ _ _ _ => trivial) (stringLiteral_reads _) (.any _)

/-- The clause for an encoding starts with its word. -/
theorem encoding_leads {G : Option Token → Prop} : Form.encoding.Leads G (IsWord "encoding") := .seq word_leads (.any _)

/-- A clause for an encoding, or none, is read up to the semicolon. -/
theorem encodingClause_reads : Reads S P encodingClause id (.optional .encoding) (IsKind .semicolon) :=
  .either (seesWord_head "encoding") encodingThere_reads encoding_leads (.pure rfl)
    (.nothing fun _ h hw => hw.isKind.ne (by decide) h)

/-- Where an encoding must come next, it is read as one. -/
theorem encodingClause_there_reads : Reads S (fun o => IsWord "encoding" o.head) encodingClause id .encoding F := by
  refine .look (seesWord_head "encoding") fun b => .ite (fun _ => ?_) fun hb => ?_
  · exact (encodingThere_reads (P := fun _ => True)).of_imp fun _ h => ⟨trivial, h.1⟩
  refine .unused (fun _ h => h) fun o h => ?_
  simp [h.2.mpr h.1] at hb

/-- A version declaration is read up to its semicolon, where its two words come next. -/
theorem versionDecl_reads : Reads S (fun o => o.WordAt 0 "xquery" ∧ (o.WordAt 1 "version" ∨ o.WordAt 1 "encoding")) versionDecl id
    .versionBody (IsKind .semicolon) := by
  refine .andNext (Q := fun o => IsWord "version" o.head ∨ IsWord "encoding" o.head) (F := fun _ => True)
    (Reads.of_imp (Reads.takeWord (P := fun o => o.WordAt 1 "version" ∨ o.WordAt 1 "encoding")) fun o h =>
      ⟨h.2, Outlook.wordAt_zero.mp h.1⟩) (fun o ts o' hp hb => ?_) ?_ (.any _)
  · simp only [← Outlook.wordAt_zero, wordAt_behind hb]
    exact hp.2
  refine .either (seesWord_head "version") ?_ (.seq word_leads (.any _)) ?_
    (encoding_leads.imp fun t h hw => nomatch hw.unique h)
  · exact .andNext (Q := fun _ => True) (F := fun _ => True) .takeWord (fun _ _ _ _ _ => trivial)
      (inOrder_cons_reads (stringLiteral_reads _) (inOrder_one_reads encodingClause_reads) (.any _)) (.any _)
  · exact encodingClause_there_reads.of_imp fun o h => h.1.resolve_left h.2

/-- A version declaration starts as one. -/
theorem startsVersion_of_builds {o o' : Outlook} {ts : List Tree} (h : (Form.declared .versionDecl .versionBody).Builds o ts o') :
    StartsVersion (o.ahead.map (·.token)) := by
  simp only [StartsVersion, isWordAt_iff]
  cases h with
  | node h =>
    cases h with
    | seq h =>
      cases h with
      | seq hx h =>
        refine ⟨Outlook.wordAt_placed.mp (Outlook.wordAt_zero.mpr (word_leads (G := fun _ => True) _ _ _ hx trivial)), ?_⟩
        simp only [← o.wordAt_placed, ← wordAt_behind hx, Outlook.wordAt_zero]
        cases h with
        | first h => exact .inl (Form.Leads.seq (G := fun _ => True) word_leads (.any _) _ _ _ h trivial)
        | second h => exact .inr (encoding_leads (G := fun _ => True) _ _ _ h trivial)

/-- A version declaration with its semicolon is read as one. -/
theorem version_reads :
    Reads S (fun o => P o ∧ StartsVersion (o.ahead.map (·.token))) (declaration .versionDecl versionDecl) id
      (.declared .versionDecl .versionBody) F := by
  refine declaration_reads versionDecl_reads fun o h => ?_
  simpa only [StartsVersion, isWordAt_iff, Outlook.wordAt_placed] using h.2

/-! ## Module declarations -/

/-- Binding the prefix of the module is no part of the form. -/
theorem bindPrefix_reads (hS : ¬ S) (name : Option String) :
    Reads S P (modify fun c => { c with modulePrefix := name }) (fun _ => true) .nothing F where
  stays _ h := h
  sound c hc _ := .inr ⟨rfl, [], ⟨hc.ordered, hc.aligned, hc.faultless, hc.last⟩, .nothing _, (List.append_nil _).symm, fun h => absurd h hS⟩
  complete c ts o hc _ hb _ := by
    cases hb
    exact ⟨hc.faultless, rfl, (List.append_nil _).symm⟩

/-- What follows the words of a module declaration. -/
def moduleBinding : Rule Bool :=
  inOrder [expectNCName "module prefix", expect .equals "`=` after module prefix", stringLiteral "module namespace URI"]

/-- The prefix and the URI of a module are read in a row. -/
theorem moduleBinding_reads : Reads S P moduleBinding id (.row [.mark .name, .mark .equals, .str]) F :=
  inOrder_cons_reads (expectNCName_reads _) (inOrder_cons_reads (expect_reads rfl _) (inOrder_one_reads (stringLiteral_reads _))
    (.any _)) (.seq (mark_leads.imp fun t h => h.ne (by decide)) (.any _))

/-- The same with the prefix that the module binds. -/
def moduleTail : Rule Bool :=
  sees .name >>= fun b => if b = true then
    nextText >>= fun name => (modify fun c => { c with modulePrefix := some name }) >>= fun _ => moduleBinding
  else moduleBinding

/-- They are read so when the prefix is bound, too. -/
theorem moduleTail_reads (hS : ¬ S) : Reads S P moduleTail id (.row [.mark .name, .mark .equals, .str]) F := by
  refine .look (sees_head .name) fun b => .ite (fun _ => .look nextText_looks.keeps fun name => ?_) fun _ => moduleBinding_reads
  exact (Reads.andNext (Q := fun _ => True) (bindPrefix_reads hS (some name)) (fun _ _ _ _ _ => trivial) moduleBinding_reads (.any _)).of_iff
    fun _ _ _ => Form.nothing_seq_iff

/-- A module declaration is read as one. -/
theorem moduleDecl_reads (hS : ¬ S) : Reads S (·.Words [["module"], ["namespace"]]) moduleDecl id .moduleBody F :=
  .andNext (Q := fun _ => True) (takeKeywords_reads [["module"], ["namespace"]]) (fun _ _ _ _ _ => trivial) (moduleTail_reads hS) (.any _)

/-- A module declaration starts as one. -/
theorem startsModule_of_builds {o o' : Outlook} {ts : List Tree} (h : (Form.declared .moduleDecl .moduleBody).Builds o ts o') :
    StartsModule (o.ahead.map (·.token)) := by
  have hw : o.Words [["module"], ["namespace"]] := words_of_declared h
  simp only [StartsModule, isWordAt_iff]
  obtain ⟨w, hm, h0⟩ := hw 0 _ rfl
  obtain ⟨v, hn, h1⟩ := hw 1 _ rfl
  exact ⟨List.mem_singleton.mp hm ▸ h0, List.mem_singleton.mp hn ▸ h1⟩

/-! ## The parts of a module -/

/-- The declarations of a prolog are read as a row of them. -/
theorem prologDecls_reads : Reads False P prologDecls (fun _ => true) (.decls false) F := by
  have h : Reads False P (repeatRule prologStep none) (fun _ => true) (.decls false) F := decls_reads.of_imp fun _ _ => trivial
  have hunit : Reads False P (repeatRule prologStep none >>= fun _ => pure ()) (fun _ => true) (.decls false) F := h.thenPure rfl
  exact hunit

/-- Nothing is left just if no token comes next. -/
theorem atEnd_head : Keeps atEnd fun b o => b = true ↔ o.head = none := by
  refine (atEnd_looks.imp (Nat.le_refl 0) fun b o h => h.trans ?_).keeps
  obtain ⟨_ | ⟨l, ls⟩, tail, reached⟩ := o <;> simp [Outlook.head]

/-- Nothing may be left behind the prolog of a library module. -/
theorem libraryTail_reads : Reads S P libraryTail (fun _ => true) .nothing (· = none) := by
  refine .look nextKind_looks.keeps fun _ => .when (H := (· = none)) atEnd_head (.pure rfl) (.nothing fun _ h => h) ?_
  exact (Fails.reportNext _ rfl).bind fun _ => skipUntil_stays (A := fun _ _ => True) fun _ => ⟨rfl, trivial⟩

/-- Where nothing is left, no declaration comes next. -/
theorem Outlook.not_startsDecl {o : Outlook} (h : o.head = none) : ¬ StartsDecl (o.ahead.map (·.token)) := by
  obtain ⟨_ | ⟨l, ls⟩, tail, reached⟩ := o
  · simp [StartsDecl, IsWordAt]
  · cases h

/-- The declarations of a library module are its prolog. -/
theorem libraryProlog_of_decls {o o' : Outlook} {ts : List Tree}
    (h : (Form.seq (.leadNode .prolog (.decls false)) .nothing).Builds o ts o') : (Form.leadNode .prolog .prolog).Builds o ts o' := by
  cases h with
  | seq h hn =>
    cases hn
    cases h with
    | leadNode h =>
      cases h with
      | seq h he =>
        cases he with
        | guard _ hn =>
          cases hn
          rw [List.append_nil, List.append_nil]
          exact .leadNode h

/-- The prolog of a library module is its declarations if nothing is left behind it. -/
theorem decls_of_libraryProlog {o o' : Outlook} {ts : List Tree} (h : (Form.leadNode .prolog .prolog).Builds o ts o')
    (hn : o'.head = none) : (Form.seq (.leadNode .prolog (.decls false)) .nothing).Builds o ts o' := by
  cases h with
  | leadNode h =>
    have hd : (Form.decls false).Builds o _ o' := .seq h (.guard (Outlook.not_startsDecl hn) (.nothing o'))
    rw [List.append_nil] at hd
    exact .seq (.leadNode hd) (.nothing o')

/-- A library module is read as one up to the end of the source. -/
theorem libraryModule_reads :
    Reads False (fun o => P o ∧ StartsModule (o.ahead.map (·.token))) libraryModule (fun _ => true) .libraryModule (· = none) := by
  refine .bind (Q := fun _ => True) (F := fun _ => True) (declaration_reads (moduleDecl_reads id) fun o h => ?_) (fun _ _ _ _ _ => trivial)
    (fun b hb => ?_) (fun b hb => ?_) (.any _)
  · simp only [StartsModule, isWordAt_iff] at h
    exact Outlook.words_placed.mpr (words_two h.2.1 h.2.2)
  · obtain rfl : b = true := hb
    refine Reads.conv (.andNext (Q := fun _ => True) (F := fun _ => True) (.leadNode .prolog prologDecls_reads)
      (fun _ _ _ _ _ => trivial) libraryTail_reads (.any _)) (fun o ts o' _ hb => libraryProlog_of_decls hb)
        fun o ts o' _ hb hn => decls_of_libraryProlog hb hn
  · obtain rfl : b = false := hb
    exact (prologDecls_reads (P := fun _ => True) (F := fun _ => True)).stays.node .prolog |>.bind fun _ =>
      (libraryTail_reads (S := True) (P := fun _ => True)).stays

/-- Where the declarations of a main module end, no declaration comes next. -/
theorem Form.mainModule_iff {o o' : Outlook} {ts : List Tree} :
    (Form.seq (.node .prolog (.decls false)) .queryBody).Builds o ts o' ↔ Form.mainModule.Builds o ts o' := by
  constructor
  · intro h
    cases h with
    | seq h hb =>
      cases h with
      | node h =>
        cases h with
        | seq h he =>
          cases he with
          | guard hT hn =>
            cases hn
            rw [List.append_nil]
            exact .seq (.node h) (.guard hT hb)
  · intro h
    cases h with
    | seq h hg =>
      cases h with
      | node h =>
        cases hg with
        | guard hT hb =>
          have hd : (Form.decls false).Builds _ _ _ := .seq h (.guard hT (.nothing _))
          rw [List.append_nil] at hd
          exact .seq (.node hd) hb

/-- A main module is read as one up to the end of the source. -/
theorem mainModule_reads : Reads False P mainModule (fun _ => true) .mainModule (· = none) := by
  have h : Reads False P mainModule (fun _ => true) (.seq (.node .prolog (.decls false)) .queryBody) (· = none) :=
    .andNext (Q := fun _ => True) (F := fun _ => True) (.node .prolog (prologDecls_reads (P := fun _ => True)) fun _ _ => trivial)
      (fun _ _ _ _ _ => trivial) queryBody_reads (.any _)
  exact h.of_iff fun _ _ _ => Form.mainModule_iff

/-- Trivia are read as trivia. -/
theorem placeTrivia_reads : Reads S P placeTrivia (fun _ => true) .trivia F where
  stays _ h := h
  sound c hc _ := by
    refine .inr ⟨rfl, _, hc.placeTrivia, ?_, parts_placeTrivia c, fun _ => ⟨rfl, rfl, rfl⟩⟩
    rw [show (placeTrivia c).2.outlook = c.outlook.placed from outlook_placeTrivia c]
    exact .trivia _
  complete c ts o hc _ hb _ := by
    cases hb
    exact ⟨hc.placeTrivia.faultless, outlook_placeTrivia c, parts_placeTrivia c⟩

/-- They are so at the end of a node. -/
theorem eatTrivia_reads : Reads S P eatTrivia (fun _ => true) .trivia F :=
  .look lookPast_looks.keeps fun _ => .look (build_looks (·.builder.drain)).keeps fun _ => placeTrivia_reads

/-! ## Whole modules -/

/-- A version declaration is seen just where the tokens start one. -/
theorem seesVersionDecl_starts : Keeps seesVersionDecl fun b o => b = true ↔ StartsVersion (o.ahead.map (·.token)) := by
  simpa only [StartsVersion, isWordAt_iff] using seesVersionDecl_looks.keeps

/-- A module declaration is seen just where the tokens start one. -/
theorem seesModuleDecl_starts : Keeps seesModuleDecl fun b o => b = true ↔ StartsModule (o.ahead.map (·.token)) := by
  simpa only [StartsModule, isWordAt_iff] using seesModuleDecl_looks.keeps

/-- What comes after the version declaration. -/
theorem restOfModule_reads :
    Reads False P (do
        if ← seesModuleDecl then libraryModule else mainModule
        eatTrivia) (fun _ => true)
      (.seq (.either .libraryModule (.guard (¬ StartsModule ·) .mainModule)) .trivia) (· = none) := by
  have hplace : Form.trivia.Leads (· = none) (· = none) := by
    intro o ts o' h hn
    cases h
    exact o.head_placed ▸ hn
  refine Reads.of_iff (.guarded seesModuleDecl_starts
    (.andNext (Q := fun _ => True) libraryModule_reads (fun _ _ _ _ _ => trivial) eatTrivia_reads hplace) (fun o ts o' h => ?_)
    (.andNext (Q := fun _ => True) mainModule_reads (fun _ _ _ _ _ => trivial) eatTrivia_reads hplace))
      fun _ _ _ => Form.guarded_seq_iff
  cases h with
  | seq h =>
    cases h with
    | seq h => exact startsModule_of_builds h

/-- The reader of modules reads the form of modules. -/
theorem wholeModule_reads : Reads False P wholeModule (fun _ => true) .whole (· = none) := by
  refine .leadNode .root (Reads.of_iff (.guarded (P := P) seesVersionDecl_starts (g := .seq .nothing _)
    (.bind (Q := fun _ => True) (F := fun _ => True) version_reads (fun _ _ _ _ _ => trivial) (fun _ _ => restOfModule_reads)
      (fun _ _ => (restOfModule_reads (P := fun _ => True)).stays) (.any _)) (fun o ts o' h => ?_)
    (restOfModule_reads.of_iff fun _ _ _ => Form.nothing_seq_iff.symm)) fun _ _ _ => Form.guarded_seq_iff)
  cases h with
  | seq h => exact startsVersion_of_builds h

/-- The reading of a source starts clean. -/
theorem start_clean (source : String) : (Cursor.start source).Clean :=
  ⟨start_ordered source, start_aligned source, (nomatch ·.choose_spec.1), fun _ h => nomatch h⟩

end QueryStubs.Grammar
