import QueryStubs.Proofs.Reports.Tells
import QueryStubs.Proofs.Twin.Module

/-!
# What declarations report

Every declaration takes its first word before anything else (`declBody_takesFirst`), and it ends behind its semicolon, at the end of the
source or where another declaration starts (`declaration_told`). What stands behind the prolog is accounted for too, and where nothing is
left there, nothing is reported (`libraryTail_rests`, `queryBody_rests`).
-/

namespace QueryStubs.Grammar

open QueryStubs

variable {B : TokenKind → Span → Prop} {P : Outlook → Prop}

/-! ## Functions -/

/-- Reports a function whose prefix is not the one of the library module, which is the last step of checking its namespace. -/
def reportOutside (span : Span) (found : Option String) : Rule Unit := do
  let bound := (← get).modulePrefix
  if bound.isSome && found ≠ bound then
    reportAt .functionOutsideModuleNamespace span found []

/-- The steps of checking the namespace of a function. -/
theorem checkNamespace_eq :
    checkNamespace =
      (sees .name >>= fun b => if b = true then nextSpan >>= fun span => upcomingPrefix >>= reportOutside span else pure ()) := rfl

/-- The account after a function was reported, if it is to be, at its name. -/
def Warned (a b : Account) : Prop :=
  b = a ∨ a.IsOpen ∧ ∃ detail, b = a.tellNext ⟨.functionOutsideModuleNamespace, a.next, detail, []⟩

/-- The report of a function outside the namespace, if there is one, is told at the next lexeme. -/
theorem reportOutside_account (found : Option String) (c : Cursor) :
    (reportOutside c.nextSpan found c).2.outlook = c.outlook ∧ Warned c.account (reportOutside c.nextSpan found c).2.account := by
  have hif : reportOutside c.nextSpan found c = (if (c.modulePrefix.isSome && decide (found ≠ c.modulePrefix)) = true then
      reportAt .functionOutsideModuleNamespace c.nextSpan found [] else pure ()) c := rfl
  rw [hif]
  by_cases hbound : (c.modulePrefix.isSome && decide (found ≠ c.modulePrefix)) = true
  · have hrun : (reportAt .functionOutsideModuleNamespace c.nextSpan found [] c).2 =
        c.addReport c.nextSpan.start ⟨.functionOutsideModuleNamespace, c.nextSpan, found, []⟩ := rfl
    rw [if_pos hbound, hrun, ← next_account c]
    refine ⟨(addReport_frame c _ _).1, ?_⟩
    rcases account_addReport c.account.next.start ⟨.functionOutsideModuleNamespace, c.account.next, found, []⟩ c with ⟨-, hs⟩ | ⟨ho, hs⟩
    · exact .inl hs
    · exact .inr ⟨ho, found, hs⟩
  · rw [if_neg hbound]
    exact ⟨rfl, .inl rfl⟩

/-- Checking the namespace of a function changes nothing but that it may report the function at its name. -/
theorem checkNamespace_account (c : Cursor) :
    (checkNamespace c).2.outlook = c.outlook ∧
      ((checkNamespace c).2.account = c.account ∨ c.outlook.KindAt 0 .name ∧ Warned c.account (checkNamespace c).2.account) := by
  obtain ⟨b, d, hrun, hd, hb⟩ := (sees_looks .name).keeps.peel (c := c) rfl fun b =>
    if b = true then nextSpan >>= fun span => upcomingPrefix >>= reportOutside span else pure ()
  rw [checkNamespace_eq, hrun]
  have hout : d.outlook = c.outlook := congrArg Reading.outlook hd
  have haccount : d.account = c.account := congrArg Reading.account hd
  cases b with
  | false => exact ⟨hout, .inl haccount⟩
  | true =>
    obtain ⟨found, e, hrun', he, -⟩ := upcomingPrefix_looks.keeps.peel (c := d.look) rfl (reportOutside d.nextSpan)
    have hlook : (nextSpan >>= fun span => upcomingPrefix >>= reportOutside span) d = (upcomingPrefix >>= reportOutside d.nextSpan) d.look := rfl
    have hsame : e.account = d.account := congrArg Reading.account he
    have hspan : d.nextSpan = e.nextSpan := by rw [← next_account d, ← next_account e, hsame]
    obtain ⟨hout', hwarned⟩ := reportOutside_account found e
    rw [if_pos rfl, hlook, hrun', hspan]
    exact ⟨hout'.trans ((congrArg Reading.outlook he).trans hout), .inr ⟨hb.mp rfl, haccount ▸ hsame ▸ hwarned⟩⟩

/-- A function is reported only at a name that is taken right after. -/
theorem namespaced_tells (what : String) {f : Bool → Rule α} (hf : ∀ b, Tells B (fun _ => True) (f b) fun _ _ => True) :
    Tells B P (checkNamespace >>= fun _ => expectQName what >>= f) fun _ _ => True := by
  intro c hb _
  refine ⟨?_, trivial⟩
  have hrun : (checkNamespace >>= fun _ => expectQName what >>= f) c = (expectQName what >>= f) (checkNamespace c).2 := rfl
  rw [hrun]
  obtain ⟨hout, haccount⟩ := checkNamespace_account c
  generalize (checkNamespace c).2 = d at hout haccount ⊢
  have hfree : d.account = c.account → Told B c.account ((expectQName what >>= f) d).2.account := by
    intro hsame
    have htells : Tells B (fun _ => True) (expectQName what >>= f) fun _ _ => True := .bind (expectQName_tells what) fun b => hf b
    exact hsame ▸ (htells d (hsame.symm ▸ hb) trivial).1
  rcases haccount with hsame | ⟨hname, hsame | ⟨ho, detail, htold⟩⟩
  · exact hfree hsame
  · exact hfree hsame
  · have hahead : d.account.ahead = c.account.ahead := by rw [htold]; rfl
    have hopens : d.account.Opens B := fun l hl => hb l (hahead ▸ hl)
    have htakes := ((expectQName_takesFirst what).bind hf) d hopens (hout.symm ▸ hname)
    obtain ⟨l, ls, hl, -⟩ := hname.cons
    have hne : c.account.ahead ≠ [] := fun hn => nomatch hl.symm.trans (ahead_account_eq_nil.mp hn)
    have hwarn := (Told.refl (B := B) c.account).warn detail hne ho
    rw [← htold] at hwarn
    exact hwarn.trans htakes

/-- A parameter is accounted for. -/
theorem param_tells : Tells B P param fun _ _ => True :=
  freeNode_tells .param (.bind take_tells fun _ => .andThen (expectQName_tells _) optionalType_tells)

/-- A round of the parameters is accounted for. -/
theorem paramStep_tells (a : Bool) : Tells B P (paramStep a) fun _ _ => True := by
  refine .branch (sees_looks .dollar).tells ?_ (.bind (reportNext_tells rfl _) fun _ => .done _)
  exact .branch param_tells (.bind (accept_tells .comma) fun _ => .done _) (.done _)

/-- What is missing at the end of a list of parameters is reported, the whole list if nothing is left. -/
theorem closeParams_tells {opening : Span} (hb : B .parenOpen opening) : Tells B P (closeParams opening) fun _ _ => True := by
  refine .branch (accept_tells .parenClose) (.done true) (atEnd_looks.test_tells ?_ (missing_tells rfl _))
  exact .bind (reportUnclosed_tells rfl _ hb fun _ h => h.2) fun _ => .done false

/-- A list of parameters is accounted for where it starts with its parenthesis. -/
theorem paramList_tells : Tells B (Outlook.KindAt 0 .parenOpen) paramList fun _ _ => True := by
  refine node_tells .paramList (bracket_tells rfl fun opening hb => ?_) fun _ h => h.placed
  exact .branch (sees_looks .parenClose).tells (closeParams_tells hb) (.andThen (loop_tells paramStep_tells true) (closeParams_tells hb))

/-- The body of a function is accounted for. -/
theorem functionBody_tells : Tells B P functionBody fun _ _ => True := by
  refine (sees_looks .braceOpen).test_tells ?_ (.branch (seesWordAt_looks 0 "external").tells ?_ (missing_tells rfl _))
  · exact (node_tells .enclosedBody (balanced_tells rfl rfl _) fun _ h => h.placed).of_imp fun _ h => h.2
  · exact .bind (freeNode_tells .externalBody takeKeyword_tells) fun _ => .done true

/-- What follows the words of a function is accounted for. -/
theorem functionTail_tells : Tells B P functionTail fun _ _ => True := by
  refine (sees_looks .parenOpen).test_tells ?_ (missing_tells rfl _)
  exact .andThen (paramList_tells.of_imp fun _ h => h.2) (.andThen optionalType_tells functionBody_tells)

/-- A function takes its first word. -/
theorem functionDecl_takesFirst : TakesFirst B P functionDecl :=
  .words 1 <| namespaced_tells _ fun _ => .ite (fun _ => functionTail_tells) fun _ => .done false

/-! ## Variables and options -/

/-- What is open can be opened and is among the brackets that may be reported. -/
def OpenBrackets.Among (B : TokenKind → Span → Prop) (b : OpenBrackets) : Prop := ∀ s ∈ b.stack, s.1.isOpening = true ∧ B s.1 s.2

/-- The brackets that are open behind a lexeme were open before it, or the lexeme is one. -/
theorem OpenBrackets.Among.after {b : OpenBrackets} (hb : b.Among B) {kind : TokenKind} {span : Span}
    (h : kind.isOpening = true → B kind span) : (b.after kind span).Among B := by
  unfold OpenBrackets.after
  split
  · next ho => exact List.forall_mem_cons.mpr ⟨⟨ho, h ho⟩, hb⟩
  · split
    · exact fun s hs => hb s (List.mem_of_mem_tail hs)
    · exact hb

/-- The kind that is reported for a bracket in a value is about such brackets. -/
theorem isAbout_value {kind : TokenKind} (h : kind.isOpening = true) :
    (if kind = .braceOpen then DiagnosticKind.unclosedBody else .unclosedParens).isAbout kind = true := by
  cases kind <;> first | rfl | cases h

/-- A round of a value is accounted for. Brackets stay open at its end only where nothing is left. -/
theorem valueStep_tells (b : OpenBrackets) (k : Nat) :
    Tells B (fun o => b.Among B ∧ o.ahead.length = k) (valueStep b) fun r o =>
      if r.1 = true then r.2.Among B ∧ (o.ahead.length < k ∨ r.2.Among B ∧ (r.2.stack ≠ [] → o.ahead = []))
      else r.2.Among B ∧ (r.2.stack ≠ [] → o.ahead = []) := by
  refine .bind nextKind_looks.tells fun kind => ?_
  cases kind with
  | none => exact .pure _ fun o h => ⟨h.1.1, fun _ => by simpa using h.2.symm⟩
  | some kind =>
    refine .ite (fun hb => .pure _ fun o h => ⟨h.1.1, fun hne => ?_⟩) fun _ => ?_
    · rw [Bool.and_eq_true, List.isEmpty_iff] at hb
      exact absurd hb.1 hne
    · refine .of_imp (P := fun o => b.Among B ∧ o.KindAt 0 kind ∧ o.ahead.length = k) (.of_fact fun hstack => ?_) fun o h =>
        ⟨h.1.1, h.2.symm, h.1.2⟩
      exact scanned_tells fun span hs => .pure _ fun o ho => ⟨hstack.after hs, .inl ho⟩

/-- The brackets that are open at the end of a value are among those that may be reported, and if there are any, nothing is left. -/
theorem value_tells : Tells B P (repeatRule valueStep {}) fun b o => b.Among B ∧ (b.stack ≠ [] → o.ahead = []) :=
  (repeatRule_tells (I := fun b _ => OpenBrackets.Among B b) valueStep_tells {}).of_imp fun _ _ => List.forall_mem_nil _

/-- The value of a variable is accounted for. -/
theorem varValue_tells : Tells B P varValue fun _ _ => True := by
  refine freeNode_tells .varValue (.bind take_tells fun _ => .bind value_tells fun b => ?_)
  refine .of_fact fun hstack => ?_
  unfold closeValue
  split
  · next kind opening rest hb =>
    obtain ⟨hopens, hopening⟩ := hstack (kind, opening) (by simp [hb])
    exact .bind (reportUnclosed_tells (isAbout_value hopens) _ hopening fun _ h => h (by simp [hb])) fun _ => .done false
  · exact .ite (fun _ => missing_tells rfl _) fun _ => .done true

/-- What follows the name of a variable is accounted for. -/
theorem varTail_tells : Tells B P varTail fun _ _ => True := by
  refine .branch (sees_looks .colonEquals).tells varValue_tells (.branch (seesWordAt_looks 0 "external").tells ?_ (missing_tells rfl _))
  exact .bind takeKeyword_tells fun _ => .branch (sees_looks .colonEquals).tells varValue_tells (.done true)

/-- A variable takes its first word. -/
theorem varDecl_takesFirst : TakesFirst B P varDecl := by
  refine .words 1 (.branch (accept_tells .dollar) ?_ (missing_tells rfl _))
  exact .andThen (expectQName_tells _) (.andThen optionalType_tells varTail_tells)

/-- An option takes its first word. -/
theorem optionDecl_takesFirst : TakesFirst B P optionDecl :=
  .words 1 <| .andThen (expectQName_tells _) (stringLiteral_tells _)

/-! ## Setters and imports -/

/-- A prefix and its sign are accounted for. -/
theorem prefixBinding_tells : Tells B P prefixBinding fun _ _ => True :=
  inOrder_tells (by simpa using ⟨expectNCName_tells _, expect_tells _ _⟩)

/-- The locations of an import are accounted for. -/
theorem locationHints_tells : Tells B P locationHints fun _ _ => True := by
  have hstep : ∀ b, Tells B (fun _ => True) (locationStep b) fun _ _ => True := fun _ =>
    .branch (accept_tells .comma) (.branch (stringLiteral_tells _) (.done _) (.done _)) (.done _)
  refine .branch (seesWordAt_looks 0 "at").tells (.bind takeKeyword_tells fun _ => ?_) (.done true)
  exact .andThen (stringLiteral_tells _) (loop_tells hstep true)

/-- What a module import binds is accounted for. -/
theorem moduleTarget_tells : Tells B P moduleTarget fun _ _ => True :=
  .branch (seesWordAt_looks 0 "namespace").tells (.bind takeKeyword_tells fun _ => prefixBinding_tells) (.done true)

/-- What a schema import binds is accounted for. -/
theorem schemaTarget_tells : Tells B P schemaTarget fun _ _ => True := by
  refine .branch (seesWordAt_looks 0 "namespace").tells (.bind takeKeyword_tells fun _ => prefixBinding_tells) ?_
  refine .branch (seesWordAt_looks 0 "default").tells (.bind takeKeyword_tells fun _ => ?_) (.done true)
  exact inOrder_tells (by simpa [expectWord] using ⟨expectWordOf_tells _, expectWordOf_tells _⟩)

/-! ## Declarations of every kind -/

/-- A declaration of no known kind takes its first word before it looks at the second. -/
theorem unknownDecl_takesFirst : TakesFirst B P unknownDecl := by
  refine nextText_looks.keeps.takesFirst fun keyword => .bind (advance_takesFirst fun _ => rfl) fun _ => ?_
  refine .bind (wordAt?_looks 0).tells fun name => ?_
  cases name with
  | none => exact missing_tells rfl _
  | some name =>
    refine .bind (reportNext_tells rfl _) fun _ => .bind take_tells fun _ => .bind onlyTriviaLeft_looks.tells fun _ => ?_
    refine .ite (fun _ => .bind (freeNode_tells .error (.done ())) fun _ => .done false) fun _ => .done false

/-- Every declaration takes its first word before anything else. -/
theorem declBody_takesFirst (kind : NodeKind) : TakesFirst B P (declBody kind) := by
  unfold declBody
  split
  · exact .words 1 <| inOrder_tells (by simpa using ⟨prefixBinding_tells, stringLiteral_tells _⟩)
  · exact .words 1 (expectWordOf_tells _)
  · exact .words 2 <| inOrder_tells (by simpa [expectWord] using ⟨expectWordOf_tells _, stringLiteral_tells _⟩)
  · exact .words 2 (stringLiteral_tells _)
  · exact .words 2 <| inOrder_tells (by simpa [expectWord] using ⟨expectWordOf_tells _, expectWordOf_tells _⟩)
  · exact .words 1 (stringLiteral_tells _)
  · exact .words 1 (expectWordOf_tells _)
  · exact .words 1 (expectWordOf_tells _)
  · exact .words 1 <| inOrder_tells (by simpa using ⟨expectWordOf_tells _, expect_tells _ _, expectWordOf_tells _⟩)
  · exact .words 1 <| inOrder_tells (by simpa using ⟨schemaTarget_tells, stringLiteral_tells _, locationHints_tells⟩)
  · exact .words 1 <| inOrder_tells (by simpa using ⟨moduleTarget_tells, stringLiteral_tells _, locationHints_tells⟩)
  · exact varDecl_takesFirst
  · exact functionDecl_takesFirst
  · exact optionDecl_takesFirst
  · exact unknownDecl_takesFirst

/-- The clause for an encoding is accounted for. -/
theorem encodingClause_tells : Tells B P encodingClause fun _ _ => True :=
  .branch (seesWordAt_looks 0 "encoding").tells (.bind takeKeyword_tells fun _ => stringLiteral_tells _) (.done true)

/-- A version declaration takes its first word. -/
theorem versionDecl_takesFirst : TakesFirst B P versionDecl := by
  refine .words 0 (.branch (seesWordAt_looks 0 "version").tells (.bind takeKeyword_tells fun _ => ?_) encodingClause_tells)
  exact inOrder_tells (by simpa using ⟨stringLiteral_tells _, encodingClause_tells⟩)

/-- The prefix that a module binds is not part of the account. -/
theorem bindPrefix_tells (name : Option String) : Tells B P (modify fun c => { c with modulePrefix := name }) fun _ _ => True :=
  fun c _ _ => ⟨.refl c.account, trivial⟩

/-- A module declaration takes its first word. -/
theorem moduleDecl_takesFirst : TakesFirst B P moduleDecl := by
  have hrest : ∀ {P}, Tells B P (inOrder [expectNCName "module prefix", expect .equals "`=` after module prefix",
      stringLiteral "module namespace URI"]) fun _ _ => True :=
    inOrder_tells (by simpa using ⟨expectNCName_tells _, expect_tells _ _, stringLiteral_tells _⟩)
  refine .words 1 (.branch (sees_looks .name).tells ?_ hrest)
  exact .bind nextText_looks.tells fun name => .bind (bindPrefix_tells (some name)) fun _ => hrest

/-! ## The end of a declaration -/

/-- How a declaration ends: right behind its semicolon, or where nothing is left or another declaration starts. -/
def EndsWell (B : TokenKind → Span → Prop) (a : Account) (d : Cursor) : Prop :=
  (∃ b, Told B a b ∧ b.ahead ≠ [] ∧ d.account = b.advance) ∨ d.ahead = [] ∨ (declAhead d.ahead).isSome = true

/-- Whether or not a declaration is complete, it is read up to where its semicolon comes next, nothing is left or another one starts. -/
theorem toSemicolon_told {r : Rule Bool} (h : TakesFirst B P r) {c : Cursor} (hb : c.account.Opens B) (hp : P c.outlook) :
    Told B c.account.advance (toSemicolon r c).2.account ∧ ((toSemicolon r c).2.ahead = [] ∨ (toSemicolon r c).2.outlook.Stops) := by
  have hskip : ∀ {P}, Tells B P (skipUntil atRecovery) fun _ o => o.ahead = [] ∨ o.Stops :=
    skipUntil_tells fun c => ⟨(atRecovery_keeps c).1, (atRecovery_keeps c).2.mp⟩
  have hsemicolon : Tells B (fun _ => True) (sees .semicolon >>= fun b => if b = true then pure () else
      report .expectedToken "`;` after declaration" >>= fun _ => skipUntil atRecovery) fun _ o => o.ahead = [] ∨ o.Stops :=
    (sees_looks .semicolon).test_tells (.pure _ fun o ho => .inr (.inl ho.2)) (.bind (reportNext_tells rfl _) fun _ => hskip)
  have htaken := h c hb hp
  obtain ⟨hrest, hend⟩ := Tells.ite (b := (r c).1) (fun _ => hsemicolon) (fun _ => hskip) (r c).2
    (((Told.refl _).advance.trans htaken).opens hb) trivial
  exact ⟨htaken.trans hrest, hend⟩

/-- A semicolon that comes next is taken, and nothing else. -/
theorem acceptSemicolon_account (c : Cursor) :
    ((accept .semicolon c).2.account = c.account.advance ∧ c.ahead ≠ []) ∨
      ((accept .semicolon c).2.account = c.account ∧ (accept .semicolon c).2.ahead = c.ahead ∧ ¬ c.outlook.KindAt 0 .semicolon) := by
  obtain ⟨b, d, hrun, hd, hb⟩ := (sees_looks .semicolon).keeps.peel (c := c) rfl fun b =>
    if b = true then (do take; return true) else (pure false : Rule Bool)
  have hrun : accept .semicolon c = _ := hrun
  have haccount : d.account = c.account := congrArg Reading.account hd
  rw [hrun]
  cases b with
  | true =>
    obtain ⟨l, ls, ha, -⟩ := (hb.mp rfl).cons
    have htake : (if true = true then (do take; return true) else (pure false : Rule Bool)) d = (true, d.advance id) := rfl
    rw [htake, account_advance, haccount]
    exact .inl ⟨rfl, fun hn => nomatch ha.symm.trans hn⟩
  | false => exact .inr ⟨haccount, congrArg Reading.ahead hd, fun h => nomatch hb.mpr h⟩

/-- A declaration takes its first word before anything else, and it ends well. -/
theorem declaration_told (kind : NodeKind) {r : Rule Bool} (h : TakesFirst B (fun _ => True) r) {c : Cursor} (hb : c.account.Opens B) :
    Told B c.account.advance (declaration kind r c).2.account ∧ EndsWell B c.account.advance (declaration kind r c).2 := by
  let d : Cursor := c.placeTrivia.startNode kind
  have hd : d.account = c.account := account_placeTrivia c
  have hopens : d.account.Opens B := hd.symm ▸ hb
  obtain ⟨hbody, hend⟩ := toSemicolon_told h hopens trivial
  rw [hd] at hbody
  have hrun : (declaration kind r c).2.account = (accept .semicolon (toSemicolon r d).2).2.account ∧
      (declaration kind r c).2.ahead = (accept .semicolon (toSemicolon r d).2).2.ahead := by
    rw [declaration_eq]
    exact ⟨rfl, rfl⟩
  rw [EndsWell, hrun.1, hrun.2]
  rcases acceptSemicolon_account (toSemicolon r d).2 with ⟨htaken, hne⟩ | ⟨hsame, hahead, hnot⟩
  · rw [htaken]
    exact ⟨hbody.advance, .inl ⟨_, hbody, fun hn => hne (ahead_account_eq_nil.mp hn), rfl⟩⟩
  · rw [hsame, hahead]
    exact ⟨hbody, .inr (hend.imp_right fun hstops => hstops.resolve_left hnot)⟩

/-! ## What stands behind the prolog -/

/-- Whatever brackets may be reported, the moves from one account to another are accounted for. -/
def Account.Leads (a b : Account) : Prop := ∀ B, a.Opens B → Told B a b

/-- They are, and where nothing is left there are none. -/
def Account.Rests (a b : Account) : Prop := a.Leads b ∧ (a.ahead = [] → b = a)

/-- Moves that are accounted for are so one after the other. -/
theorem Account.Leads.trans {a b c : Account} (h : a.Leads b) (h' : b.Leads c) : a.Leads c := fun B hb =>
  (h B hb).trans (h' B ((h B hb).opens hb))

/-- If each of two makes no move where nothing is left, both together make none. -/
theorem Account.Rests.trans {a b c : Account} (h : a.Rests b) (h' : b.Rests c) : a.Rests c := by
  refine ⟨h.1.trans h'.1, fun hn => ?_⟩
  have hb := h.2 hn
  rw [h'.2 (hb.symm ▸ hn), hb]

/-- Where nothing is left, nothing is done. -/
theorem unlessEnd_rests {r : Rule Unit} (h : ∀ B, Tells B (fun _ => True) r fun _ _ => True) (c : Cursor) :
    c.account.Rests ((nextKind >>= fun _ => atEnd >>= fun b => if b = true then pure () else r) c).2.account := by
  constructor
  · intro B hb
    have htells : Tells B (fun _ => True) (nextKind >>= fun _ => atEnd >>= fun b => if b = true then pure () else r) fun _ _ => True :=
      .bind nextKind_looks.tells fun _ => .branch atEnd_looks.tells (.done ()) ((h B).of_imp fun _ _ => trivial)
    exact (htells c hb trivial).1
  · intro hn
    obtain ⟨_, d, hrun, hd, -⟩ := nextKind_looks.keeps.peel (c := c) rfl fun _ => atEnd >>= fun b => if b = true then pure () else r
    obtain ⟨b, e, hrun', he, hb⟩ := atEnd_looks.keeps.peel hd fun b => if b = true then pure () else r
    have hempty : b = true := hb.mpr (ahead_account_eq_nil.mp hn)
    rw [hrun, hrun', if_pos hempty]
    exact congrArg Reading.account he

/-- What follows the prolog of a library module is accounted for. -/
theorem libraryTail_rests (c : Cursor) : c.account.Rests (libraryTail c).2.account := by
  refine unlessEnd_rests (fun B => .bind (reportNext_tells rfl _) fun _ => ?_) c
  refine (skipUntil_tells (S := fun _ => True) ?_).imp (fun _ h => h) fun _ _ _ => trivial
  exact (Looks.pure 0 false (A := fun b _ => b = true → True) fun _ _ => trivial).keeps

/-- The braces at some ranges are among the brackets that may be reported. -/
def Braces (B : TokenKind → Span → Prop) (spans : List Span) : Prop := ∀ s ∈ spans, B .braceOpen s

/-- A round of a query body is accounted for. Braces stay open at its end only where nothing is left. -/
theorem queryBodyStep_tells (stack : List Span) (k : Nat) :
    Tells B (fun o => Braces B stack ∧ o.ahead.length = k) (queryBodyStep stack) fun r o =>
      if r.1 = true then Braces B r.2 ∧ (o.ahead.length < k ∨ Braces B r.2 ∧ o.ahead = []) else Braces B r.2 ∧ o.ahead = [] := by
  refine .bind nextKind_looks.tells fun kind => ?_
  cases kind with
  | none => exact .pure _ fun o h => ⟨h.1.1, by simpa using h.2.symm⟩
  | some kind =>
    refine .of_imp (P := fun o => Braces B stack ∧ o.KindAt 0 kind ∧ o.ahead.length = k) (.of_fact fun hspans => ?_) fun o h =>
      ⟨h.1.1, h.2.symm, h.1.2⟩
    have htake : ∀ {spans : List Span}, Braces B spans → Tells B (fun o => o.KindAt 0 kind ∧ o.ahead.length = k)
        (take >>= fun _ => pure (true, spans)) fun r o =>
          if r.1 = true then Braces B r.2 ∧ (o.ahead.length < k ∨ Braces B r.2 ∧ o.ahead = []) else Braces B r.2 ∧ o.ahead = [] := by
      intro spans hs
      refine .bind ((take_shorter k).of_imp fun o h => ⟨?_, h.2⟩) fun _ => .pure _ fun o h => ⟨hs, .inl h⟩
      obtain ⟨l, ls, hl, -⟩ := h.1.cons
      exact fun hn => nomatch hl.symm.trans hn
    split
    · next hk => cases hk
    · next hk =>
      obtain rfl := Option.some.inj hk
      exact scanned_tells fun span hs => .pure _ fun o h => ⟨List.forall_mem_cons.mpr ⟨hs rfl, hspans⟩, .inl h⟩
    · next hk =>
      obtain rfl := Option.some.inj hk
      cases stack with
      | nil =>
        refine .bind (reportNext_tells rfl _) fun _ => .bind (node_tells .error (take_shorter k) fun o h => ?_) fun _ =>
          .pure _ fun o h => ⟨hspans, .inl h⟩
        obtain ⟨l, ls, hl, -⟩ := h.1.placed.cons
        exact ⟨fun hn => (nomatch hl.symm.trans hn), o.length_placed.trans h.2⟩
      | cons opening outer => exact htake (List.forall_mem_cons.mp hspans).2
    · exact htake hspans

/-- A query body is accounted for. -/
theorem queryBody_rests (c : Cursor) : c.account.Rests (queryBody c).2.account := by
  refine unlessEnd_rests (fun B => freeNode_tells .queryBody ?_) c
  refine .bind (Q := fun stack o => Braces B stack ∧ o.ahead = []) ?_ fun stack => .of_fact fun hspans => ?_
  · exact (repeatRule_tells (I := fun stack _ => Braces B stack) queryBodyStep_tells []).of_imp fun _ _ => List.forall_mem_nil _
  · cases stack with
    | nil => exact .done ()
    | cons opening outer =>
      have hopening := hspans opening (List.mem_cons_self ..)
      exact (reportUnclosed_tells rfl _ hopening fun _ h => h).imp (fun _ h => h) fun _ _ _ => trivial

end QueryStubs.Grammar
