import QueryStubs.Proofs.Reports.Course
import QueryStubs.Proofs.Warnings.Names

/-!
# Functions outside the namespace

A declaration in which there is no error adds one node, and what is reported meanwhile is what the name of that node calls for, if it is a
function, and nothing otherwise (`Notes`). So behind every round of the loop over declarations, and behind the loop, what was reported is what
the names of all functions so far call for, in order (`Noted.step`, `Noted.loop`).
-/

namespace QueryStubs

open Grammar
open QueryStubs.Tree (constructs leavesOf)

/-- The names of the functions among some nodes. -/
def functionNames (nodes : List Node) : List Node := (nodes.filter (·.kind = .functionDecl)).filterMap Node.qname?

theorem functionNames_append (ns ms : List Node) : functionNames (ns ++ ms) = functionNames ns ++ functionNames ms := by
  simp [functionNames]

/-- Declarations of other kinds have no names among them. -/
theorem functionNames_other {n : Node} (h : n.kind ≠ .functionDecl) : functionNames [n] = [] := by
  simp [functionNames, h]

namespace Grammar

variable {tokens : List Token} {place : Nat} {c d : Cursor} {s s' : Reading} {first late : Option Span}

/-! ## One function -/

/-- What comes next starts behind its trivia. -/
theorem Reading.Stands.next_start (h : s.Stands tokens) (hplace : place + Token.sizeOf s.left = Token.sizeOf tokens) {l : Lexeme}
    {ls : List Lexeme} (ha : s.ahead = l :: ls) :
    l.span.start = place + Token.sizeOf l.lead ∧ l.span.stop = l.span.start + l.token.size := by
  obtain ⟨-, behind, htokens, -, hcut⟩ := h
  rw [ha] at hcut
  obtain ⟨hstart, hstop, -, -⟩ := split_behind hcut
  have hsize : Token.sizeOf tokens = Token.sizeOf behind + Token.sizeOf s.left := by rw [htokens, Token.sizeOf_append]
  rw [Token.sizeOf_nil] at hstart
  exact ⟨by omega, hstop⟩

/-- The reading goes on with other parts of the open construct just as cleanly. -/
theorem Reading.Clean.within (h : s.Clean) (ts : List Tree) : Reading.Clean { s with parts := ts } :=
  ⟨h.ordered, h.aligned, h.faultless, h.last⟩

/-- What is known behind the words of a declaration that starts at a place, of which the trees are `ks`. -/
structure BehindWords (tokens : List Token) (place : Nat) (c y : Cursor) (ks : List Tree) : Prop where
  clean : y.Clean
  stands : y.Stands tokens
  lexical : y.outlook.Lexical
  parts : y.parts = c.parts ++ ks
  flat : constructs ks = []
  unnamed : ∀ t ∈ Tree.ownTokens ks, t.kind ≠ .name
  place_eq : place + Token.sizeOf (leavesOf ks) + Token.sizeOf y.left = Token.sizeOf tokens
  reports : y.reports = c.reports
  modulePrefix : y.modulePrefix = c.modulePrefix

/-- No token of a row of keywords is a name. -/
theorem Form.Makes.unnamed {wss : List (List String)} {ks : List Tree} (h : (Form.keywords wss).Makes ks) :
    ∀ t ∈ Tree.ownTokens ks, t.kind ≠ .name := by
  induction wss generalizing ks with
  | nil =>
    cases h
    exact List.forall_mem_nil _
  | cons words wss ih =>
    obtain ⟨us, vs, rfl, ⟨w, t, hw, hk, -, rfl⟩, hvs⟩ := h
    rw [Tree.ownTokens_append, Tree.ownTokens_append]
    intro u hu
    rcases List.mem_append.mp hu with hu | hu
    · rcases List.mem_append.mp hu with hu | hu
      · exact hw.kind_ne rfl u (by simpa using hu)
      · obtain rfl : u = t := by simpa [Tree.ownTokens] using hu
        simp [hk]
    · exact ih hvs u hu

/-- Taking the words of a declaration leads there. -/
theorem takeKeywords_behind {wss : List (List String)} (hu : c.Underway) (hs : c.Stands tokens) (hc : c.Clean)
    (hfull : c.patience ≤ fullPatience) (hwords : c.outlook.Words wss)
    (hplace : place + Token.sizeOf c.left = Token.sizeOf tokens) :
    (takeKeywords wss.length c).2.HasError ∨ ∃ ks, BehindWords tokens place c (takeKeywords wss.length c).2 ks := by
  have hnames : c.outlook.Names wss.length := by
    refine ⟨hc.aligned, fun i hi => ?_⟩
    obtain ⟨w, -, hw⟩ := hwords i wss[i] (List.getElem?_eq_getElem hi)
    exact hw.kindAt
  obtain ⟨hrun, -⟩ := takeKeywords_names wss.length c hu.ordered hnames (Nat.zero_le _) hfull
  obtain ⟨ks, hparts, hleft⟩ := hrun.tokens hu.scanned
  obtain ⟨ks', hparts', hflat⟩ := takeKeywords_adds (C := fun _ => False) wss.length c
  obtain rfl : ks = ks' := List.append_cancel_left (hparts.symm.trans hparts')
  refine ((takeKeywords_reads (S := True) (F := fun _ => True) wss).sound c hc hwords).imp_right fun ⟨_, _, hgrows⟩ => ?_
  obtain ⟨hreports, -, hbound⟩ := hgrows.silent trivial
  have hmakes := hgrows.builds.makes hu.scanned.lexical
  obtain rfl := List.append_cancel_left (hparts.symm.trans hgrows.parts)
  refine ⟨ks, hgrows.clean, hrun.stands hs, (hrun.underway hu).scanned.lexical, hparts, List.eq_nil_iff_forall_not_mem.mpr hflat, hmakes.unnamed,
    ?_, hreports, hbound⟩
  rw [hleft, Token.sizeOf_append, sizeOf_tokensOf] at hplace
  omega

/-- So does taking them behind the trivia that come first, in a node. -/
theorem takeKeywords_inside (kind : NodeKind) {wss : List (List String)} (hu : c.Underway) (hs : c.Stands tokens) (hc : c.Clean)
    (hfull : c.patience ≤ fullPatience) (hwords : c.outlook.Words wss) (hplace : place + Token.sizeOf c.left = Token.sizeOf tokens) :
    (takeKeywords wss.length (c.placeTrivia.startNode kind)).2.HasError ∨
      ∃ ks, BehindWords tokens (place + Token.sizeOf c.outlook.trivia) (c.placeTrivia.startNode kind)
        (takeKeywords wss.length (c.placeTrivia.startNode kind)).2 ks := by
  have hplaced : c.placeTrivia.Underway := (Run.refl c).placeTrivia.underway hu
  have hout : c.placeTrivia.outlook = c.outlook.placed := outlook_placeTrivia c
  refine takeKeywords_behind ⟨hplaced.ordered, hplaced.scanned, hplaced.cut⟩ hs.placeTrivia (hc.placeTrivia.within []) hfull ?_ ?_
  · have hsame : Outlook.Words wss c.placeTrivia.outlook := hout ▸ Outlook.words_placed.mpr hwords
    exact hsame
  · have hleft : c.left = c.outlook.trivia ++ c.outlook.placed.left := c.outlook.left_placed
    have hsame : c.placeTrivia.left = c.outlook.placed.left := congrArg Outlook.left hout
    rw [hleft, ← hsame, Token.sizeOf_append, ← Nat.add_assoc] at hplace
    exact hplace

/-- What is done behind the name of a function. -/
def behindName (named : Bool) : Rule Bool := (if named = true then functionTail else pure false) >>= declarationEnd

theorem behindName_reads : Reads True (fun _ => True) (behindName true) id (.seq (.row [.paramList, .optional .typeDecl, .functionBody])
    (.mark .semicolon)) fun _ => True :=
  declarationEnd_reads functionTail_reads

theorem behindName_stays (named : Bool) : Stays (behindName named) := by
  cases named with
  | true => exact behindName_reads.stays
  | false => exact declarationEnd_stays false

/-- The name of a function, which is reported if it is to be. -/
def checkedName : Rule Bool := checkNamespace >>= fun _ => expectQName "function name"

theorem checkedName_sound : Reads False (fun _ => True) checkedName id .qname NoColon := checkedName_reads id _

/-- Behind the words of a function declaration the name is all that is reported, if there is no error. -/
theorem BehindWords.told {y : Cursor} {ks : List Tree} (h : BehindWords tokens place c y ks) (hparts : c.parts = [])
    (hd : ((checkedName >>= behindName) y).2 = d) :
    d.HasError ∨ d.Clean ∧ d.modulePrefix = c.modulePrefix ∧
      d.reports = c.reports ++ outsiders c.modulePrefix (functionNames [⟨.functionDecl, d.parts, place⟩]) := by
  rw [bind_run] at hd
  -- The name is there if there is no error, and what is reported of it is what it calls for.
  rcases checkedName_sound.sound y h.clean trivial with herror | ⟨hnamed, _, hz⟩
  · exact .inl (hd ▸ behindName_stays _ _ herror)
  have hnamed : (checkedName y).1 = true := hnamed
  obtain ⟨l, ls, ha, -, hk⟩ := (qname_leads (G := fun _ => True) _ _ _ hz.builds trivial).outlook_eq
  obtain ⟨hstart, hstop⟩ := h.stands.next_start h.place_eq ha
  have hopen : y.lastReport ≠ some l.span.start := fun hlast => by
    have hlt := h.clean.last _ hlast
    rw [Reading.nextPlace, ha] at hlt
    exact Nat.lt_irrefl _ hlt
  obtain ⟨ns, hzparts, hzreports, hzbound⟩ := checkedName_told "function name" ha hk hopen hstop
  -- Nothing is reported behind it.
  rw [hnamed] at hd
  rcases behindName_reads.sound (checkedName y).2 hz.clean trivial with herror | ⟨-, us, hend⟩
  · exact .inl (hd ▸ herror)
  rw [hd] at hend
  obtain ⟨hreports, -, hbound⟩ := hend.silent trivial
  have hinside : d.parts = (ks ++ leavesFor l.lead) ++ .node .qname ns :: us := by
    rw [hend.parts, checkedName, hzparts, h.parts, hparts]
    simp
  have hfound : (⟨.functionDecl, d.parts, place⟩ : Node).qname? = some ⟨.qname, ns, l.span.start⟩ := by
    have hflat : ∀ x ∈ constructs (ks ++ leavesFor l.lead), x.1 ≠ .qname := by simp [h.flat]
    have hsize : leavesOf (leavesFor l.lead) = l.lead := Tree.leavesOf_map_leaf _
    rw [Node.qname?, Node.child?_behind hinside hflat, Tree.leavesOf_append, hsize, Token.sizeOf_append, hstart, Nat.add_assoc]
  refine .inr ⟨hend.clean, hbound.trans (hzbound.trans h.modulePrefix), ?_⟩
  rw [hreports, checkedName, hzreports, h.reports, h.modulePrefix]
  simp [functionNames, hfound]

/-! ## Declarations of every kind -/

/-- What a declaration does to a reading if there is no error. `place` is where the trivia in front of it start. -/
structure Notes (place : Nat) (s s' : Reading) : Prop where
  clean : s'.Clean
  modulePrefix : s'.modulePrefix = s.modulePrefix
  adds : ∃ (w : List Token) (kind : NodeKind) (us : List Tree), s'.parts = s.parts ++ (leavesFor w ++ [.node kind us]) ∧
    s'.reports = s.reports ++ outsiders s.modulePrefix (functionNames [⟨kind, us, place + Token.sizeOf w⟩])

/-- A declaration makes a node of what is read behind the trivia that come first. -/
theorem declaration_run (kind : NodeKind) (r : Rule Bool) (c : Cursor) {d : Cursor}
    (hd : ((r >>= declarationEnd) (c.placeTrivia.startNode kind)).2 = d) :
    (declaration kind r c).2.toReading = { d.toReading with parts := c.parts ++ (leavesFor c.outlook.trivia ++ [.node kind d.parts]) } := by
  subst hd
  rw [← List.append_assoc, ← parts_placeTrivia]
  rfl

/-- The words of a function declaration are taken first, and then its name is read. -/
theorem functionDecl_eq :
    functionDecl >>= declarationEnd = takeKeywords (Form.declWords .functionDecl).length >>= fun _ => checkedName >>= behindName := by
  have hlength : (Form.declWords .functionDecl).length = 2 := rfl
  rw [hlength, functionDecl, checkedName]
  simp only [bind_assoc]
  rfl

theorem functionDecl_notes (hu : c.Underway) (hs : c.Stands tokens) (hc : c.Clean) (hfull : c.patience ≤ fullPatience)
    (hwords : c.outlook.Words (Form.declWords .functionDecl)) (hplace : place + Token.sizeOf c.left = Token.sizeOf tokens) :
    (declaration .functionDecl functionDecl c).2.HasError ∨ Notes place c.toReading (declaration .functionDecl functionDecl c).2.toReading := by
  have hrun := declaration_run .functionDecl functionDecl c rfl
  have hinside := takeKeywords_inside .functionDecl hu hs hc hfull hwords hplace
  rw [functionDecl_eq, bind_run] at hrun
  rw [hrun]
  generalize (takeKeywords (Form.declWords .functionDecl).length (c.placeTrivia.startNode .functionDecl)).2 = y at hinside ⊢
  have hstays : y.HasError → ((checkedName >>= behindName) y).2.HasError := (checkedName_sound.stays.bind behindName_stays) y
  generalize hz : ((checkedName >>= behindName) y).2 = z at hstays ⊢
  rcases hinside with herror | ⟨ks, hbehind⟩
  · exact .inl (hstays herror)
  · exact (hbehind.told rfl hz).imp_right fun ⟨hclean, hbound, hreports⟩ => ⟨hclean.within _, hbound, _, _, _, rfl, hreports⟩

/-- A declaration of every kind does. -/
theorem declaration_notes {kind : NodeKind} (hu : c.Underway) (hs : c.Stands tokens) (hc : c.Clean) (hfull : c.patience ≤ fullPatience)
    (hk : declAhead c.ahead = some kind) (hplace : place + Token.sizeOf c.left = Token.sizeOf tokens) :
    (declaration kind (declBody kind) c).2.HasError ∨ Notes place c.toReading (declaration kind (declBody kind) c).2.toReading := by
  by_cases herror : kind = .error
  · subst herror
    exact .inl (unknownDeclaration_fails.error c hc hk)
  obtain ⟨hdecl, hwords⟩ := (declAhead_iff (o := c.outlook) herror).mp hk
  by_cases hfunction : kind = .functionDecl
  · subst hfunction
    exact functionDecl_notes hu hs hc hfull hwords hplace
  have hreads : Reads (kind ≠ .functionDecl) (·.Words (Form.declWords kind)) (declaration kind (declBody kind)) id
      (.declared kind (.declBody kind)) fun _ => True :=
    declaration_reads (declBody_reads hdecl) fun _ => Outlook.words_placed.mpr
  refine (hreads.sound c hc hwords).imp_right fun ⟨_, _, hgrows⟩ => ?_
  obtain ⟨hreports, -, hbound⟩ := hgrows.silent hfunction
  refine ⟨hgrows.clean, hbound, _, kind, _, parts_declaration kind (declBody kind) c, ?_⟩
  rw [hreports, functionNames_other hfunction]
  exact (List.append_nil _).symm

/-! ## The loop -/

/-- The order of declarations is an error or does not matter. -/
theorem checkOrder_keeps (kind : NodeKind) (span : Span) (first : Option Span) (c : Cursor) :
    (checkOrder kind span first c).2.HasError ∨ (checkOrder kind span first c).2.toReading = c.toReading := by
  rcases checkOrder_run kind span first c with ⟨hrun, -⟩ | ⟨place, -, -, hrun⟩
  · exact .inr (congrArg _ hrun)
  · rw [hrun]
    by_cases hlast : c.lastReport = some span.start
    · rw [Cursor.addReport, if_pos hlast]
      exact .inr rfl
    · exact .inl (addReport_error hlast rfl)

/-- A round of the loop does to a reading what the declaration does that comes next. -/
theorem prologStep_notes (h : c.AtDecl first) (hs : c.Stands tokens) (hc : c.Clean) (hplace : place + Token.sizeOf c.left = Token.sizeOf tokens)
    (hrun : prologStep first c = ((true, late), d)) : d.HasError ∨ Notes place c.toReading d.toReading := by
  obtain ⟨kind, hk⟩ := prologStep_more hrun
  obtain ⟨e, he, hstep, hpatience, -⟩ := prologStep_run first hk
  have hahead : declAhead e.ahead = some kind := (congrArg (fun s : Reading => declAhead s.ahead) he).trans hk
  have hnotes := declaration_notes (he ▸ h.underway) (he ▸ hs) (he ▸ hc) (Nat.le_trans hpatience h.le_full) hahead (he ▸ hplace)
  rw [he] at hnotes
  generalize (declaration kind (declBody kind) e).2 = x at hnotes hstep
  let y : Cursor := x.demand (decide (e.nextSpan.start ≤ x.reached)) .reversedSpan
  have hy : y.toReading = x.toReading := (demand_keeps _ _ x).1
  have hd : (checkOrder kind ⟨e.nextSpan.start, x.reached⟩ first y).2 = d := (congrArg Prod.snd (hrun.symm.trans hstep)).symm
  rcases hnotes with herror | hnotes
  · exact .inl (hd ▸ checkOrder_stays kind _ first y (hy ▸ herror))
  · rcases checkOrder_keeps kind ⟨e.nextSpan.start, x.reached⟩ first y with herror | hsame
    · exact .inl (hd ▸ herror)
    · rw [hd, hy] at hsame
      exact .inr (hsame ▸ hnotes)

/-- A run keeps the length of what was read and of what is left. -/
theorem Run.place_eq (h : Run c d) (hu : c.Underway) {offset n : Nat}
    (hplace : offset + Token.sizeOf (leavesOf c.parts) + Token.sizeOf c.left = n) :
    offset + Token.sizeOf (leavesOf d.parts) + Token.sizeOf d.left = n := by
  obtain ⟨ts, hparts, hleft⟩ := h.tokens hu.scanned
  rw [hleft, Token.sizeOf_append, sizeOf_tokensOf] at hplace
  rw [hparts, Tree.leavesOf_append, Token.sizeOf_append]
  omega

/-- The declarations so far are noted, of a prolog that starts at a byte offset in a module that binds a prefix, if it binds one: nothing was
reported since `before` but what the names of functions call for. -/
structure Noted (tokens : List Token) (bound : Option String) (before : List Diagnostic) (offset : Nat) (s : Reading) : Prop where
  clean : s.Clean
  stands : s.Stands tokens
  place : offset + Token.sizeOf (leavesOf s.parts) + Token.sizeOf s.left = Token.sizeOf tokens
  modulePrefix : s.modulePrefix = bound
  reports : s.reports = before ++ outsiders bound (functionNames (nodesFrom offset s.parts))

variable {bound : Option String} {before : List Diagnostic} {offset : Nat}

/-- One declaration more is noted if there is no error in it. -/
theorem Noted.step (h : Noted tokens bound before offset c.toReading) (hc : c.AtDecl first) (hrun : prologStep first c = ((true, late), d)) :
    d.HasError ∨ Noted tokens bound before offset d.toReading := by
  obtain ⟨hsafe, -⟩ := prologStep_safe first _ c hc.underway.ordered ⟨⟨hc.aligned, hc.forward⟩, rfl⟩ hc.patient hc.le_full
  rw [hrun] at hsafe
  rcases prologStep_notes hc h.stands h.clean h.place hrun with herror | hnotes
  · exact .inl herror
  · obtain ⟨w, kind, us, hparts, hreports⟩ := hnotes.adds
    refine .inr ⟨hnotes.clean, hsafe.stands h.stands, hsafe.place_eq hc.underway h.place, hnotes.modulePrefix.trans h.modulePrefix, ?_⟩
    rw [hparts, nodesFrom_snoc, functionNames_append, outsiders_append, hreports, h.reports, h.modulePrefix, List.append_assoc]

/-- So all declarations are noted behind the loop if no error was reported. -/
theorem Noted.loop (h : Noted tokens bound before offset c.toReading) (hc : c.AtDecl first) :
    (repeatRule prologStep first c).2.HasError ∨ Noted tokens bound before offset (repeatRule prologStep first c).2.toReading := by
  -- An error that one round reports is still there behind the others, which is to be known of them as well.
  refine (prologLoop_induction (M := fun first c d => (c.HasError → d.HasError) ∧ (Noted tokens bound before offset c.toReading →
    d.HasError ∨ Noted tokens bound before offset d.toReading)) (fun {first c d} _ _ hd => ?_)
      (fun {first c late d e} hc hs hrest => ?_) first c hc).2 h
  · rw [hd]
    exact ⟨id, .inr⟩
  · have hstays : c.HasError → d.HasError := by
      intro herror
      have hstep := prologStep_stays first c herror
      rwa [hs] at hstep
    refine ⟨fun herror => hrest.1 (hstays herror), fun h => ?_⟩
    rcases h.step hc hs with herror | hnoted
    · exact .inl (hrest.1 herror)
    · exact hrest.2 hnoted

end Grammar

end QueryStubs
