import QueryStubs.Proofs.Brackets.QueryBody
import QueryStubs.Proofs.Faultless.Functions
import QueryStubs.Proofs.Warnings.Declarations

/-!
# Warnings of a source without errors

Nothing binds a prefix but a module declaration, and the prefix that it binds is the one that its node has (`BehindWords.binds`). So where a
source has no error, its prolog is read in a reading in which nothing was reported yet and in which just the prefix of the module is bound
(`AtLibrary`), and behind the prolog nothing is reported. Main result: `Parsed.warnings_of_faultless`.
-/

namespace QueryStubs

open Grammar
open QueryStubs.Tree (constructs leavesOf)

namespace Grammar

variable {tokens : List Token} {place offset : Nat} {c d y : Cursor} {ks : List Tree} {source : String}

/-! ## Module declarations -/

/-- A module declaration goes on with a name, which becomes its next leaf. -/
theorem binding_first {o o' : Outlook} {ts : List Tree}
    (h : (Form.seq (.row [.mark .name, .mark .equals, .str]) (.mark .semicolon)).Builds o ts o') :
    ∃ l ls us, o.ahead = l :: ls ∧ l.kind = .name ∧ ts = leavesFor l.lead ++ .leaf l.token :: us := by
  cases h with
  | @seq _ _ _ _ _ _ vs h _ =>
    cases h with
    | @seq _ _ _ _ _ _ us h _ =>
      cases h with
      | one ls _ _ hk => exact ⟨_, ls, us ++ vs, rfl, of_decide_eq_true hk, by simp⟩

/-- The name that comes next is bound, and then it is read. -/
theorem moduleTail_run {l : Lexeme} {ls : List Lexeme} (ha : c.ahead = l :: ls) (hk : l.kind = .name) :
    ∃ z : Cursor, z.toReading = { c.toReading with modulePrefix := some l.token.text } ∧ moduleTail c = moduleBinding z := by
  unfold moduleTail
  obtain ⟨b, d, hrun, hd, hb⟩ := (sees_head .name).peel (c := c) rfl fun b => if b = true then
    nextText >>= fun name => (modify fun c => { c with modulePrefix := some name }) >>= fun _ => moduleBinding else moduleBinding
  have hname : IsKind .name c.outlook.head := by
    rw [Outlook.head, Reading.outlook, ha]
    exact isKind_some.mpr hk
  obtain rfl : b = true := hb.mpr hname
  obtain ⟨name, e, hrun', he, htext⟩ := nextText_looks.keeps.peel hd fun name =>
    (modify fun c => { c with modulePrefix := some name }) >>= fun _ => moduleBinding
  obtain rfl : name = l.token.text := htext l ls ha
  refine ⟨{ e with modulePrefix := some l.token.text }, by rw [← he], ?_⟩
  rw [hrun, if_pos rfl, hrun']
  rfl

/-- Behind the words of a module declaration nothing is reported if there is no error, and the prefix of its node is bound. -/
theorem BehindWords.binds (h : BehindWords tokens place c y ks) (hparts : c.parts = []) (hd : ((moduleTail >>= declarationEnd) y).2 = d) :
    d.HasError ∨ d.reports = c.reports ∧
      ∃ P, d.modulePrefix = some P ∧ ∀ start, (⟨.moduleDecl, d.parts, start⟩ : Node).boundPrefix? = some P := by
  have htail := declarationEnd_reads (moduleTail_reads (S := False) (P := fun _ => True) (F := IsKind .semicolon) id) (F := fun _ => True)
  have hbinding := declarationEnd_reads (moduleBinding_reads (S := True) (P := fun _ => True)) (F := fun _ => True)
  rcases htail.sound y h.clean trivial with herror | ⟨-, _, hbuilt⟩
  · exact .inl (hd ▸ herror)
  obtain ⟨l, ls, -, ha, hk, -⟩ := binding_first hbuilt.builds
  obtain ⟨z, hz, hrun⟩ := moduleTail_run (c := y) ha hk
  have hd : ((moduleBinding >>= declarationEnd) z).2 = d := by rw [← hd, bind_run, bind_run, hrun]
  have hclean : z.Clean := by
    rw [hz]
    exact ⟨h.clean.ordered, h.clean.aligned, h.clean.faultless, h.clean.last⟩
  rcases hbinding.sound z hclean trivial with herror | ⟨-, us, hgrows⟩
  · exact .inl (hd ▸ herror)
  rw [hd, hz] at hgrows
  obtain ⟨hreports, -, hbound⟩ := hgrows.silent trivial
  refine .inr ⟨hreports.trans h.reports, l.token.text, hbound, fun start => ?_⟩
  obtain ⟨l', ls', vs, ha', -, hus⟩ := binding_first hgrows.builds
  obtain ⟨rfl, -⟩ := List.cons.inj (ha.symm.trans ha')
  have hd : d.parts = ks ++ (leavesFor l.lead ++ .leaf l.token :: vs) := by
    rw [hgrows.parts, ← hus]
    simp [h.parts, hparts]
  have hks : (Tree.ownTokens ks).find? (·.kind = .name) = none := List.find?_eq_none.mpr fun t ht => by simpa using h.unnamed t ht
  have hlead : l.lead.find? (·.kind = .name) = none := List.find?_eq_none.mpr fun t ht => by
    have htrivia : Token.AllTrivia l.lead := h.lexical.leads l (ha.symm ▸ List.mem_cons_self ..)
    simpa using htrivia.kind_ne rfl t ht
  have hkind : l.token.kind = .name := hk
  simp [Node.boundPrefix?, Node.tokens_eq, hd, Tree.ownTokens, List.find?_append, hks, hlead, hkind]

/-! ## Up to the prolog -/

/-- Where a prolog is read from in a clean reading, its declarations are noted behind it if there is no error in it. -/
theorem prologDecls_noted (he : c.AtProlog) (hc : c.Clean) (hs : c.Stands tokens) (hplace : offset + Token.sizeOf c.left = Token.sizeOf tokens) :
    (prologDecls c).2.HasError ∨ Noted tokens c.modulePrefix c.reports offset (prologDecls c).2.toReading := by
  have hnodes : nodesFrom offset c.parts = [] := by
    rw [he.empty]
    rfl
  have hstart : Noted tokens c.modulePrefix c.reports offset c.toReading := by
    refine ⟨hc, hs, ?_, rfl, ?_⟩
    · rw [he.empty]
      exact hplace
    · rw [hnodes]
      exact (List.append_nil _).symm
  exact hstart.loop he.atDecl

/-- Behind the version declaration of a source nothing is reported if there is no error in it, and no prefix is bound. -/
theorem headed_faultless (source : String) : (Cursor.headed source).HasError ∨
    (Cursor.headed source).Clean ∧ (Cursor.headed source).reports = [] ∧ (Cursor.headed source).modulePrefix = none := by
  obtain ⟨hsame, hseen⟩ := seesVersionDecl_starts ((Cursor.start source).startNode .root)
  rw [headed_eq]
  generalize seesVersionDecl ((Cursor.start source).startNode .root) = seen at hsame hseen
  obtain ⟨version, c⟩ := seen
  have hc : c.toReading = (Cursor.start source).toReading := hsame
  have hclean : c.Clean := hc ▸ start_clean source
  have hreports : c.reports = [] := congrArg Reading.reports hc
  have hbound : c.modulePrefix = none := congrArg Reading.modulePrefix hc
  cases version with
  | false => exact .inr ⟨hclean, hreports, hbound⟩
  | true =>
    have hstarts : StartsVersion (c.outlook.ahead.map (·.token)) := by
      have ho : c.outlook = (Cursor.start source).outlook := congrArg Reading.outlook hc
      exact ho ▸ hseen.mp rfl
    refine ((version_reads (S := True) (P := fun _ => True) (F := fun _ => True)).sound c hclean ⟨trivial, hstarts⟩).imp_right
      fun ⟨_, _, hgrows⟩ => ?_
    obtain ⟨hsame, -, hsame'⟩ := hgrows.silent trivial
    exact ⟨hgrows.clean, hsame.trans hreports, hsame'.trans hbound⟩

theorem prologDecls_stays : Stays prologDecls := (prologDecls_reads (P := fun _ => True) (F := fun _ => True)).stays

/-- In a main module nothing is reported in front of the query body if there is no error there. -/
theorem mainBody_faultless (source : String) : (Cursor.mainBody source).HasError ∨ (Cursor.mainBody source).reports = [] := by
  have hmain := atMain source
  have hsame : (seesModuleDecl (.headed source)).2.toReading = (Cursor.headed source).toReading := (seesModuleDecl_starts (.headed source)).1
  have hbody : (Cursor.mainBody source).reports = (prologDecls (.mainProlog source)).2.reports := rfl
  rw [Reading.HasError, hbody]
  rcases headed_faultless source with herror | ⟨hclean, hreports, hbound⟩
  · have hprolog : (Cursor.mainProlog source).HasError := by
      rw [Reading.HasError, hmain.reports]
      exact herror
    exact .inl (prologDecls_stays _ hprolog)
  · have hprolog : (Cursor.mainProlog source).Clean := by
      have hseen : (seesModuleDecl (.headed source)).2.Clean := hsame.symm ▸ hclean
      exact hseen.placeTrivia.within []
    rcases prologDecls_noted hmain.atProlog hprolog (hmain.comes.stands (start_stands source)) hmain.place with herror | hnoted
    · exact .inl herror
    · rw [hnoted.reports, hmain.modulePrefix, hbound, outsiders_none, hmain.reports, hreports]
      exact .inr rfl

/-! ## Library modules -/

/-- What is known where the prolog of a library module is read from. -/
structure AtLibrary (source : String) (d : Cursor) : Prop where
  atProlog : Cursor.AtProlog (d.startNode .prolog)
  clean : d.Clean
  stands : d.Stands (Token.ofSource source)
  place : Token.sizeOf (leavesOf d.parts) + Token.sizeOf d.left = Token.sizeOf (Token.ofSource source)
  reports : d.reports = []
  binds : ∃ (P : String) (w : List Token) (us : List Tree), d.modulePrefix = some P ∧
    d.parts = (Cursor.headed source).parts ++ (leavesFor w ++ [.node .moduleDecl us]) ∧
      ∀ start, (⟨.moduleDecl, us, start⟩ : Node).boundPrefix? = some P

/-- The words of a module declaration are taken first, and then its name is read. -/
theorem moduleDecl_eq :
    moduleDecl >>= declarationEnd = takeKeywords [["module"], ["namespace"]].length >>= fun _ => moduleTail >>= declarationEnd :=
  bind_assoc _ _ _

/-- A module declaration without errors reports nothing and binds the prefix of its node. -/
theorem moduleDecl_binds (hu : c.Underway) (hs : c.Stands tokens) (hc : c.Clean) (hfull : c.patience ≤ fullPatience)
    (hwords : c.outlook.Words [["module"], ["namespace"]]) (hplace : place + Token.sizeOf c.left = Token.sizeOf tokens)
    (hd : (declaration .moduleDecl moduleDecl c).2 = d) :
    d.HasError ∨ d.reports = c.reports ∧ ∃ P us, d.modulePrefix = some P ∧
      d.parts = c.parts ++ (leavesFor c.outlook.trivia ++ [.node .moduleDecl us]) ∧
        ∀ start, (⟨.moduleDecl, us, start⟩ : Node).boundPrefix? = some P := by
  have hrun := declaration_run .moduleDecl moduleDecl c rfl
  have hinside := takeKeywords_inside .moduleDecl hu hs hc hfull hwords hplace
  rw [moduleDecl_eq, bind_run] at hrun
  rw [← hd, hrun]
  have htail : Stays (moduleTail >>= declarationEnd) :=
    (moduleTail_reads (S := False) (P := fun _ => True) (F := fun _ => True) id).stays.bind declarationEnd_stays
  generalize (takeKeywords [["module"], ["namespace"]].length (c.placeTrivia.startNode .moduleDecl)).2 = y at hinside ⊢
  rcases hinside with herror | ⟨ks, hbehind⟩
  · exact .inl (htail _ herror)
  · exact (hbehind.binds rfl rfl).imp_right fun ⟨hreports, P, hbound, hprefix⟩ => ⟨hreports, P, _, hbound, rfl, hprefix⟩

/-- What is known where the module declaration of a library module is read from. -/
structure AtModule (source : String) (c : Cursor) : Prop where
  same : c.toReading = (Cursor.headed source).toReading
  underway : c.Underway
  aligned : c.outlook.Aligned
  stands : c.Stands (Token.ofSource source)
  place : Token.sizeOf (leavesOf c.parts) + Token.sizeOf c.left = Token.sizeOf (Token.ofSource source)
  words : c.outlook.WordAt 0 "module" ∧ c.outlook.WordAt 1 "namespace"
  patient : 166 ≤ c.patience
  le_full : c.patience ≤ fullPatience

theorem atModule {source : String} (h : (seesModuleDecl (.headed source)).1 = true) : AtModule source (seesModuleDecl (.headed source)).2 := by
  have hheaded := headed source
  obtain ⟨hlook, hspent, -⟩ := (seesModuleDecl_looks.safe (P := Outlook.Aligned)) (.headed source) hheaded.underway.ordered hheaded.aligned
    (Nat.le_trans (by decide) hheaded.patient) hheaded.le_full
  obtain ⟨hsame, hseen⟩ := seesModuleDecl_looks.keeps (.headed source)
  have hfull := hlook.patience_le hheaded.le_full
  have hpatient : 166 ≤ (seesModuleDecl (.headed source)).2.patience := by
    have hspent := hspent.1
    have hpatient := hheaded.patient
    omega
  have hwords := hseen.mp h
  generalize (seesModuleDecl (.headed source)).2 = c at hsame hfull hpatient
  have ho : c.outlook = (Cursor.headed source).outlook := congrArg Reading.outlook hsame
  exact ⟨hsame, hsame.symm ▸ hheaded.underway, ho ▸ hheaded.aligned, hsame.symm ▸ hheaded.comes.stands (start_stands source),
    hsame.symm ▸ hheaded.place, ho ▸ hwords, hpatient, hfull⟩

/-- So the prolog of a library module is read from there if there is no error in front of it. -/
theorem AtModule.atLibrary {complete : Bool} (h : AtModule source c) (hd : declaration .moduleDecl moduleDecl c = (complete, d)) :
    d.HasError ∨ complete = true ∧ AtLibrary source d := by
  have hwords : c.outlook.Words [["module"], ["namespace"]] := words_two h.words.1 h.words.2
  have hreads : Reads False (·.Words [["module"], ["namespace"]]) (declaration .moduleDecl moduleDecl) id
      (.declared .moduleDecl .moduleBody) fun _ => True := declaration_reads (moduleDecl_reads id) fun _ => Outlook.words_placed.mpr
  obtain ⟨hrun, hspent, haligned⟩ := (declaration_safe .moduleDecl moduleDecl_safe).safe c h.underway.ordered
    ⟨h.aligned, names_of_module h.words⟩ (Nat.le_trans (by decide) h.patient) h.le_full
  rw [hd] at hrun hspent haligned
  rcases headed_faultless source with herror | ⟨hclean, hreports, -⟩
  · have herror := hreads.stays c (h.same.symm ▸ herror)
    rw [hd] at herror
    exact .inl herror
  have hclean : c.Clean := h.same.symm ▸ hclean
  have hsound := hreads.sound c hclean hwords
  rw [hd] at hsound
  rcases hsound with herror | ⟨hcomplete, _, hgrows⟩
  · exact .inl herror
  refine (moduleDecl_binds h.underway h.stands hclean h.le_full hwords h.place (congrArg Prod.snd hd)).imp_right
    fun ⟨hsilent, P, us, hbound, hparts, hprefix⟩ => ⟨hcomplete, ⟨⟨?_, haligned, ?_, hrun.patience_le h.le_full, rfl⟩, hgrows.clean,
      hrun.stands h.stands, ?_, ?_, P, c.outlook.trivia, us, hbound, ?_, hprefix⟩⟩
  · have hunderway := hrun.underway h.underway
    exact ⟨hunderway.ordered, hunderway.scanned, hunderway.cut⟩
  · have hspent : c.patience ≤ d.patience + 25 := hspent.1
    have hpatient := h.patient
    have hd : 140 ≤ d.patience := by omega
    exact hd
  · have hplace : 0 + Token.sizeOf (leavesOf c.parts) + Token.sizeOf c.left = Token.sizeOf (Token.ofSource source) :=
      (congrArg (· + _) (Nat.zero_add _)).trans h.place
    have hafter := hrun.place_eq h.underway hplace
    rw [Nat.zero_add] at hafter
    exact hafter
  · have hsame : c.reports = (Cursor.headed source).reports := congrArg Reading.reports h.same
    exact hsilent.trans (hsame.trans hreports)
  · have hfront : c.parts = (Cursor.headed source).parts := congrArg Reading.parts h.same
    rw [hparts, hfront]

theorem libraryTail_stays : Stays libraryTail := (libraryTail_reads (S := True) (P := fun _ => True)).stays

/-- What follows the module declaration keeps errors. -/
theorem libraryRest_stays (complete : Bool) : Stays (libraryRest complete) := by
  cases complete with
  | true => exact Stays.bind (fun c herror => prologDecls_stays (c.startNode .prolog) herror) fun _ => libraryTail_stays
  | false => exact (prologDecls_stays.node .prolog).bind fun _ => libraryTail_stays

/-- What is reported behind the module declaration is what the names of the functions in the prolog call for, if there is no error. -/
theorem AtLibrary.rest_told (h : AtLibrary source d) :
    (libraryRest true d).2.HasError ∨ ∃ ps ts : List Tree, (libraryRest true d).2.parts = d.parts ++ .node .prolog ps :: ts ∧
      (libraryRest true d).2.reports = outsiders d.modulePrefix (functionNames (nodesFrom (Token.sizeOf (leavesOf d.parts)) ps)) := by
  obtain ⟨e, he⟩ : ∃ e, (prologDecls (d.startNode .prolog)).2 = e := ⟨_, rfl⟩
  obtain ⟨x, hx⟩ : ∃ x, e.finishNode .prolog d.parts = x := ⟨_, rfl⟩
  have hrest : (libraryRest true d).2 = (libraryTail x).2 := by
    subst hx he
    rfl
  rw [hrest]
  rcases prologDecls_noted h.atProlog (h.clean.within []) h.stands h.place with herror | hnoted
  · have hx : x.HasError := hx ▸ he ▸ herror
    exact .inl (libraryTail_stays x hx)
  rw [he] at hnoted
  have hclean : x.Clean := hx ▸ hnoted.clean.within _
  refine ((libraryTail_reads (S := True) (P := fun _ => True)).sound x hclean trivial).imp_right fun ⟨_, ts, hgrows⟩ => ⟨e.parts, ts, ?_, ?_⟩
  · have hparts : x.parts = d.parts ++ [.node .prolog e.parts] := hx ▸ rfl
    rw [hgrows.parts, hparts]
    simp
  · have hreports : x.reports = e.reports := hx ▸ rfl
    have hnone : (d.startNode .prolog).reports = [] := h.reports
    rw [(hgrows.silent trivial).1, hreports, hnoted.reports, hnone]
    rfl

end Grammar

namespace Parsed

variable {source : String}

/-- What is reported of a library module without errors is what the names of its functions call for. -/
theorem told_of_library (hlibrary : (ofSource source).root.isLibrary = true) (h : (ofSource source).hasErrors = false) :
    ∃ decl P prolog, (ofSource source).root.moduleDecl? = some decl ∧ decl.boundPrefix? = some P ∧
      (ofSource source).root.prolog? = some prolog ∧ (ofSource source).reports = outsiders (some P) (functionNames prolog.nodes) := by
  rw [isLibrary_eq] at hlibrary
  obtain ⟨complete, d, hd⟩ : ∃ complete d, declaration .moduleDecl moduleDecl (seesModuleDecl (.headed source)).2 = (complete, d) :=
    ⟨_, _, rfl⟩
  have hread := afterVersion_library hlibrary
  rw [bind_run, hd] at hread
  have hreports : (ofSource source).reports = (libraryRest complete d).2.reports := by
    rw [reports_eq, hread]
    rfl
  have hfaultless : ¬ (libraryRest complete d).2.HasError := by
    rintro ⟨r, hr, he⟩
    exact List.any_eq_false.mp h r (hreports ▸ hr) he
  obtain ⟨rfl, hat⟩ := ((atModule hlibrary).atLibrary hd).resolve_left fun herror => hfaultless (libraryRest_stays complete d herror)
  obtain ⟨ps, ts, hparts, htold⟩ := hat.rest_told.resolve_left hfaultless
  obtain ⟨P, w, us, hbound, hfront, hprefix⟩ := hat.binds
  have hchildren : (ofSource source).root.children = d.parts ++ .node .prolog ps :: (ts ++ leavesFor (libraryRest true d).2.outlook.trivia) := by
    have htree : (ofSource source).root.children = (libraryRest true d).2.placeTrivia.parts := by
      rw [root, tree_eq, hread]
      rfl
    rw [htree, parts_placeTrivia, hparts, List.append_assoc]
    rfl
  -- In front of the prolog there are a version declaration at most and the module declaration.
  have hversions : ∀ x ∈ constructs (Cursor.headed source).parts, x.1 = .versionDecl := (headed source).fronts
  have hdecls : ∀ x ∈ constructs ((Cursor.headed source).parts ++ leavesFor w), x.1 ≠ .moduleDecl := fun x hx => by
    simp [hversions x (by simpa using hx)]
  have hprologs : ∀ x ∈ constructs d.parts, x.1 ≠ .prolog := fun x hx => by
    have hx : x ∈ constructs (Cursor.headed source).parts ∨ x = (.moduleDecl, us) := by simpa [hfront] using hx
    rcases hx with hx | rfl
    · simp [hversions x hx]
    · simp
  have hfirst : (ofSource source).root.children = ((Cursor.headed source).parts ++ leavesFor w) ++ .node .moduleDecl us ::
      .node .prolog ps :: (ts ++ leavesFor (libraryRest true d).2.outlook.trivia) := by
    rw [hchildren, hfront]
    simp
  have hdecl := Node.child?_behind hfirst hdecls
  have hprolog := Node.child?_behind hchildren hprologs
  have hstart : (ofSource source).root.start = 0 := by
    rw [root, tree_eq]
    rfl
  rw [hstart, Nat.zero_add] at hprolog
  refine ⟨_, P, _, hdecl, hprefix _, hprolog, ?_⟩
  rw [hreports, htold, hbound]
  rfl

/-- Nothing is reported of a main module without errors. -/
theorem told_of_faultless_main (hmain : (ofSource source).root.isLibrary = false) (h : (ofSource source).hasErrors = false) :
    (ofSource source).reports = [] := by
  have hnone : ∀ r ∈ (ofSource source).reports, r.isError ≠ true := List.any_eq_false.mp h
  have hfront : ∀ {rs : List Diagnostic}, (ofSource source).reports = (Cursor.mainBody source).reports ++ rs →
      (Cursor.mainBody source).reports = [] := fun hrs =>
    (mainBody_faultless source).resolve_left fun ⟨r, hr, he⟩ => hnone r (hrs ▸ List.mem_append_left _ hr) he
  rcases told_of_main hmain with ⟨-, hreports⟩ | ⟨body, -, -, hreports, -⟩
  · exact hreports.trans (hfront (hreports.trans (List.append_nil _).symm))
  · have hbody : Brackets.reports source.utf8ByteSize body.start body.leaves = [] := List.eq_nil_iff_forall_not_mem.mpr fun r hr =>
      hnone r (hreports ▸ List.mem_append_right _ hr) (Brackets.isError_reports r hr)
    rw [hreports, hfront hreports, hbody]
    rfl

end Parsed

/-! ## The module -/

/-- The names of function declarations are those of the functions that they become. -/
theorem Node.toQName_names {ns : List Node} (h : ∀ n ∈ ns, ∃ f, n.toFunctionDecl? = some f) :
    (ns.filterMap Node.qname?).map Node.toQName? = (ns.filterMap Node.toFunctionDecl?).map fun f => some f.name := by
  induction ns with
  | nil => rfl
  | cons n ns ih =>
    obtain ⟨⟨f, hf⟩, hns⟩ := List.forall_mem_cons.mp h
    obtain ⟨name, hname, hq⟩ := (Node.readsFunction hf).name
    rw [List.filterMap_cons_some hname, List.filterMap_cons_some hf, List.map_cons, List.map_cons, ih hns, hq]

/-- The qualifier of the name that a node spells is the one that the node has. -/
theorem Node.qualifier_toQName {n : Node} {q : QName} (h : n.toQName? = some q) : n.qualifier? = q.qualifier := by
  obtain ⟨localPart, -, h⟩ := Option.bind_eq_some_iff.mp h
  obtain rfl := Option.some.inj h
  rfl

namespace Parsed

variable {source : String}

/-- The names of the functions that are declared in a source, in order. -/
def declaredNames (p : Parsed) : List Node := p.root.prolog?.elim [] fun prolog => functionNames prolog.nodes

/-- Where a source has no error, these are the names of the functions of its module. -/
theorem toQName_declaredNames (h : (ofSource source).hasErrors = false) :
    (ofSource source).declaredNames.map Node.toQName? = (ofSource source).module.functions.map fun f => some f.name := by
  obtain ⟨prolog, hprolog, hdecls⟩ := prolog_of_faultless h
  have hnames : (ofSource source).declaredNames = prolog.functionDecls.filterMap Node.qname? := by
    rw [declaredNames, hprolog]
    rfl
  rw [hnames, functions_root hprolog]
  exact Node.toQName_names fun n hn => (Node.functions_of_makes hdecls n hn).imp fun _ => And.left

/-- So a name is outside a namespace just if a function is. -/
theorem exists_outside (h : (ofSource source).hasErrors = false) (P : String) :
    (∃ name ∈ (ofSource source).declaredNames, name.qualifier? ≠ some P) ↔
      ∃ f ∈ (ofSource source).module.functions, f.name.qualifier ≠ some P := by
  have hsame := toQName_declaredNames h
  constructor
  · rintro ⟨name, hname, hne⟩
    have hmem : name.toQName? ∈ (ofSource source).module.functions.map fun f => some f.name := hsame ▸ List.mem_map_of_mem hname
    obtain ⟨f, hf, hq⟩ := List.mem_map.mp hmem
    exact ⟨f, hf, Node.qualifier_toQName hq.symm ▸ hne⟩
  · rintro ⟨f, hf, hne⟩
    have hmem : some f.name ∈ (ofSource source).declaredNames.map Node.toQName? :=
      hsame.symm ▸ List.mem_map_of_mem (f := fun f : FunctionDecl => some f.name) hf
    obtain ⟨name, hname, hq⟩ := List.mem_map.mp hmem
    exact ⟨name, hname, (Node.qualifier_toQName hq).symm ▸ hne⟩

/-- What kind of module a source is. -/
theorem kind_main_iff : (ofSource source).module.kind = .main ↔ (ofSource source).root.isLibrary = false := by
  have hkind : (ofSource source).module.kind = (ofSource source).root.toModuleKind := rfl
  rw [hkind, Node.toModuleKind, Node.isLibrary]
  cases (ofSource source).root.moduleDecl? <;> simp

/-- What is reported of a library module without errors that binds a prefix is what the names of its functions call for. -/
theorem reports_of_library (h : (ofSource source).hasErrors = false) {P uri : String} (hkind : (ofSource source).module.kind = .library P uri) :
    (ofSource source).reports = ((ofSource source).declaredNames.filter (·.qualifier? ≠ some P)).map Node.outside := by
  have hlibrary : (ofSource source).root.isLibrary = true := by
    rw [← Bool.not_eq_false, ← kind_main_iff, hkind]
    simp
  obtain ⟨decl, Q, prolog, hdecl, hbound, hprolog, hreports⟩ := told_of_library hlibrary h
  have hkind' : (ofSource source).root.toModuleKind = .library P uri := hkind
  rw [Node.toModuleKind, hdecl] at hkind'
  obtain ⟨hQ, -⟩ := ModuleKind.library.inj hkind'
  rw [hbound] at hQ
  obtain rfl : Q = P := hQ
  rw [hreports, declaredNames, hprolog]
  simp [outsiders]

/-- Where a source has no error, nothing is reported of a main module, and a library module has one warning for each function of which the name
does not have the prefix of the module, in order and at the first part of that name. So what is refused if warnings are not accepted are just the
library modules with such a function. -/
theorem warnings_of_faultless (h : (ofSource source).hasErrors = false) :
    ((ofSource source).declaredNames.map Node.toQName? = (ofSource source).module.functions.map fun f => some f.name) ∧
      ((ofSource source).module.kind = .main → (ofSource source).reports = []) ∧
      (∀ P uri, (ofSource source).module.kind = .library P uri →
        (ofSource source).reports = ((ofSource source).declaredNames.filter (·.qualifier? ≠ some P)).map Node.outside) ∧
      (Command.refused true (ofSource source) = true ↔ ∃ P uri, (ofSource source).module.kind = .library P uri ∧
        ∃ f ∈ (ofSource source).module.functions, f.name.qualifier ≠ some P) := by
  have hmain : (ofSource source).module.kind = .main → (ofSource source).reports = [] := fun hkind =>
    told_of_faultless_main (kind_main_iff.mp hkind) h
  refine ⟨toQName_declaredNames h, hmain, fun P uri => reports_of_library h, ?_⟩
  have hrefused : Command.refused true (ofSource source) = (ofSource source).reports.any (·.isWarning) := by
    rw [Command.refused, h, Bool.false_or, Bool.true_and, hasWarnings]
  rw [hrefused]
  cases hkind : (ofSource source).module.kind with
  | main => simp [hmain hkind]
  | library P uri =>
    have hwarning : ∀ name : Node, name.outside.isWarning = true := fun _ => rfl
    have hexists := exists_outside h P
    rw [reports_of_library h hkind]
    constructor
    · intro hany
      obtain ⟨r, hr, -⟩ := List.any_eq_true.mp hany
      obtain ⟨name, hname, -⟩ := List.mem_map.mp hr
      obtain ⟨hname, hne⟩ := List.mem_filter.mp hname
      exact ⟨P, uri, rfl, hexists.mp ⟨name, hname, of_decide_eq_true hne⟩⟩
    · rintro ⟨Q, _, hQ, hf⟩
      obtain ⟨rfl, -⟩ := ModuleKind.library.inj hQ
      obtain ⟨name, hname, hne⟩ := hexists.mpr hf
      exact List.any_eq_true.mpr ⟨name.outside, List.mem_map_of_mem (List.mem_filter.mpr ⟨hname, decide_eq_true hne⟩), hwarning name⟩

set_option maxRecDepth 10000 in
/-- In a library module with a function in its namespace and one in none, the second is reported. -/
theorem warnings_of_two :
    (ofSource "module namespace p=\"u\"; declare function p:f()external; declare function g()external;").hasErrors = false ∧
      (ofSource "module namespace p=\"u\"; declare function p:f()external; declare function g()external;").reports =
        ((ofSource "module namespace p=\"u\"; declare function p:f()external; declare function g()external;").declaredNames.filter
          (·.qualifier? ≠ some "p")).map Node.outside ∧
        (ofSource "module namespace p=\"u\"; declare function p:f()external; declare function g()external;").reports.map
          (·.span) = [⟨73, 74⟩] := by
  have h : (ofSource "module namespace p=\"u\"; declare function p:f()external; declare function g()external;").hasErrors = false := by cbv
  have hkind : (ofSource "module namespace p=\"u\"; declare function p:f()external; declare function g()external;").module.kind =
      .library "p" "u" := by cbv
  exact ⟨h, (warnings_of_faultless h).2.2.1 "p" "u" hkind, by cbv⟩

end Parsed

end QueryStubs
