import QueryStubs.Proofs.Reader.Whole
import QueryStubs.Proofs.Twin.Declarations

/-!
# Modules side by side

A declaration that is not complete is skipped up to its semicolon or to the next declaration (`toSemicolon_mirrors`). In a declaration that
is compared by itself there is nothing but the semicolon to stop at, because no word in it starts another one.

Only where the sources are compared to the end are the rules for a whole module compared. The one of them that goes by trivia is the rule
for an unknown declaration: if trivia are all that is left behind it, it makes an empty node, and this is inside a node for what could
not be used (`emptyNode_mirrors`).
-/

namespace QueryStubs.Grammar

open QueryStubs

variable {K : Pairing} {T : Rows K} {p q : Prop} {P : Outlook → Prop}

/-! ## Which declaration comes next -/

/-- Both readings see the same declaration come next. -/
theorem upcomingDecl_mirrors : Mirrors T p p P upcomingDecl upcomingDecl Same := by
  refine .test (seesWord_mirrors "import") (seesWordAt_looks 0 "import").keeps ?_ ?_
  · refine (wordAt?_mirrors 1 fun o h => h.2.kindAt.reach_one nofun).andThen fun second => ?_
    split <;> exact .done _
  refine .test (seesWord_mirrors "declare") (seesWordAt_looks 0 "declare").keeps ?_ (.done none)
  refine .look (wordAt?_mirrors 1 fun o h => h.2.kindAt.reach_one nofun) (wordAt?_looks 1).keeps fun second => ?_
  by_cases hs : second = some "default"
  · subst hs
    refine (wordAt?_mirrors 2 fun o h => ?_).andThen fun third => ?_
    · exact Outlook.KindAt.reach (kindAt_of_wordIn (i := 1) (Option.isSome_of_eq_some h.2.symm)) nofun (h.1.2.kindAt.reach_one nofun)
    · split <;> exact .done _
  · split <;> first | exact .done _ | exact absurd rfl hs

/-- The same declaration comes next at corresponding places. -/
theorem Rows.Twin.declAhead_eq {c d : Reading} (ht : T.Twin p c d) : declAhead c.ahead = declAhead d.ahead := by
  have hpatience : 4 ≤ fullPatience := by decide
  obtain ⟨-, hc, -, hspent⟩ := upcomingDecl_looks ⟨c, fullPatience, [], {}⟩
  obtain ⟨-, hd, -⟩ := upcomingDecl_looks ⟨d, fullPatience, [], {}⟩
  have hsame := (upcomingDecl_mirrors (P := Anywhere)).agree ⟨c, fullPatience, [], {}⟩ ⟨d, fullPatience, [], {}⟩ ht trivial (hspent hpatience).1
  exact hc.symm.trans (hsame.1.trans hd)

/-- Skipping stops at a semicolon, or where a declaration comes next. -/
def Outlook.Stops (o : Outlook) : Prop := o.KindAt 0 .semicolon ∨ (declAhead o.ahead).isSome = true

/-- Whether to stop skipping is asked of what comes next, and the answer changes nothing. -/
theorem atRecovery_keeps : Keeps atRecovery fun b o => b = true ↔ o.Stops := by
  refine Looks.keeps (n := 5) (Looks.bind 1 4 (sees_looks .semicolon) fun _ => Looks.ite (fun hs => ?_) fun hs => ?_)
  · exact Looks.pure 4 _ fun o h => ⟨fun _ => .inl (h.mp hs), fun _ => rfl⟩
  · refine Looks.bind 4 0 upcomingDecl_looks fun a => Looks.pure 0 _ fun o h hk => ?_
    have hn : ¬ o.KindAt 0 .semicolon := fun ho => by simp [hk.mpr ho] at hs
    rw [h]
    exact ⟨.inr, fun hstop => hstop.resolve_left hn⟩

/-- Both stop skipping at the same place. -/
theorem atRecovery_mirrors : Mirrors T p p P atRecovery atRecovery Same :=
  .test (sees_mirrors .semicolon) (sees_looks .semicolon).keeps (.done true) (upcomingDecl_mirrors.andThen fun _ => .done _)

/-! ## One declaration -/

/-- A declaration up to where its semicolon is expected. -/
def toSemicolon (rule : Rule Bool) : Rule Unit := do
  if ← rule then
    if ← sees .semicolon then
      pure ()
    else
      report .expectedToken "`;` after declaration"
      skipUntil atRecovery
  else
    skipUntil atRecovery

/-- A declaration with its semicolon, if it is there. -/
def throughSemicolon (rule : Rule Bool) : Rule Bool := do
  toSemicolon rule
  accept .semicolon

/-- A declaration is a node around a rule that goes through its semicolon. -/
theorem declaration_eq (kind : NodeKind) (rule : Rule Bool) : declaration kind rule = node kind (throughSemicolon rule) := by
  unfold declaration throughSemicolon toSemicolon
  rw [bind_assoc]
  refine congrArg (node kind) (bind_congr fun ok => ?_)
  cases ok with
  | false => rfl
  | true =>
    simp only [if_true, bind_assoc]
    refine bind_congr fun semicolon => ?_
    cases semicolon <;> rfl

/-- Whether its semicolon comes next or it is skipped, a declaration goes the same way on both sides up to where it is to stop. -/
theorem toSemicolon_mirrors {x : Rule Bool} (hx : Mirrors T p q P x x Same) :
    Mirrors T p q P (toSemicolon x) (toSemicolon x) fun _ _ o => o.ahead = [] ∨ o.Stops := by
  have hskip : Mirrors T q q Anywhere (skipUntil atRecovery) (skipUntil atRecovery) fun _ _ o => o.ahead = [] ∨ o.Stops :=
    skipUntil_mirrors (fun _ => atRecovery_mirrors) atRecovery_keeps (.inr fun _ => .inl)
  refine hx.andThen fun _ => .ite ?_ hskip
  refine .test (sees_mirrors .semicolon) (sees_looks .semicolon).keeps (.pure fun o h => .inr (.inl h.2)) ?_
  exact (report_mirrors (by decide)).bind fun _ _ => hskip.anywhere

/-- The declarations that have a rule of their own. -/
theorem kind_of_declAhead {ls : List Lexeme} {kind : NodeKind} (h : declAhead ls = some kind) :
    kind = .error ∨ kind.isSetter = true ∨ kind.isBodyDecl = true := by
  unfold declAhead at h
  split at h
  · obtain rfl := Option.some.inj h
    unfold importKind
    split <;> decide
  split at h
  · obtain rfl := Option.some.inj h
    unfold declareKind
    split
    case h_3 third =>
      unfold defaultKind
      split <;> decide
    all_goals decide
  · cases h

/-- Each of them goes the same way at corresponding places. -/
theorem knownDecl_mirrors {kind : NodeKind} (hk : kind.isSetter = true ∨ kind.isBodyDecl = true) :
    Mirrors T p True (fun o => ∀ i < leadingWords kind, o.KindAt i .name) (declBody kind) (declBody kind) Same := by
  have hwords := expectWordOf_mirrors (T := T) (p := True) (P := Anywhere)
  have hword := expectWord_mirrors (T := T) (p := True) (P := Anywhere)
  have hliteral := stringLiteral_mirrors (T := T) (p := True) (P := Anywhere)
  match kind, hk with
  | .namespaceDecl, _ => exact words_mirrors 1 (inOrder_mirrors (by simpa using ⟨prefixBinding_mirrors, hliteral _⟩))
  | .boundarySpaceDecl, _ => exact words_mirrors 1 (hwords _)
  | .defaultNamespaceDecl, _ => exact words_mirrors 2 (inOrder_mirrors (by simpa using ⟨hword _, hliteral _⟩))
  | .defaultCollationDecl, _ => exact words_mirrors 2 (hliteral _)
  | .emptyOrderDecl, _ => exact words_mirrors 2 (inOrder_mirrors (by simpa using ⟨hword _, hwords _⟩))
  | .baseUriDecl, _ => exact words_mirrors 1 (hliteral _)
  | .constructionDecl, _ => exact words_mirrors 1 (hwords _)
  | .orderingModeDecl, _ => exact words_mirrors 1 (hwords _)
  | .copyNamespacesDecl, _ =>
    exact words_mirrors 1 (inOrder_mirrors (by simpa using ⟨hwords _, expect_mirrors .comma _ nofun, hwords _⟩))
  | .schemaImport, _ =>
    exact words_mirrors 1 (inOrder_mirrors (by simpa using ⟨schemaTarget_mirrors, hliteral _, locationHints_mirrors⟩))
  | .moduleImport, _ =>
    exact words_mirrors 1 (inOrder_mirrors (by simpa using ⟨moduleTarget_mirrors, hliteral _, locationHints_mirrors⟩))
  | .varDecl, _ => exact varDecl_mirrors
  | .functionDecl, _ => exact functionDecl_mirrors
  | .optionDecl, _ => exact optionDecl_mirrors

/-! ## A declaration of no known kind -/

/-- What is made of trivia that are all that is left. -/
def trailing : List Token → List Tree
  | [] => []
  | t :: ts => leavesFor (t :: ts) ++ [.node .error []]

/-- An empty node is made behind trivia that are all that is left. -/
theorem emptyNode_run (c : Cursor) : ((do if ← onlyTriviaLeft then node .error (pure ()) : Rule Unit) c).2.toReading =
    if c.ahead.isEmpty then { c.toReading with parts := c.parts ++ trailing c.tail, ahead := [], tail := [] } else c.toReading := by
  obtain ⟨⟨parts, ahead, tail, _, _, _, _, _⟩, _, _, _⟩ := c
  cases ahead with
  | cons l ls => rfl
  | nil =>
    cases tail with
    | nil =>
      simp only [List.isEmpty_nil, if_true, trailing, List.append_nil]
      rfl
    | cons t ts =>
      simp only [List.isEmpty_nil, if_true, trailing, ← List.append_assoc]
      rfl

/-- Making it is no defect. -/
theorem emptyNode_keeping : Keeping (do if ← onlyTriviaLeft then node .error (pure ())) := by
  intro c hn
  obtain ⟨⟨parts, ahead, tail, _, _, _, _, _⟩, _, _, _⟩ := c
  cases ahead with
  | cons l ls => exact hn
  | nil => cases tail <;> exact hn

/-- It may be made on one side only. -/
theorem Rows.trailing (T : Rows K) (hw : K.whole) {ws vs : List Token} (h : K.leads ws vs) :
    T.spoiled.rel (Grammar.trailing ws) (Grammar.trailing vs) := by
  cases ws with
  | nil =>
    cases vs with
    | nil => exact T.spoiled.nil
    | cons v vs => exact T.spoiled_right hw h
  | cons w ws =>
    cases vs with
    | nil => exact T.spoiled_left hw h
    | cons v vs => exact T.spoiled.append (T.spoiled.lead h) (T.spoiled_node T.spoiled.nil)

/-- Both make the empty node for a word behind which nothing is left, or neither does. -/
theorem emptyNode_mirrors : Mirrors T.spoil p p P (do if ← onlyTriviaLeft then node .error (pure ()))
    (do if ← onlyTriviaLeft then node .error (pure ())) fun _ _ => Anywhere where
  keeping := emptyNode_keeping
  agree c d ht _ _ := by
    rw [emptyNode_run, emptyNode_run]
    refine ⟨trivial, ?_⟩
    rcases ht.next with ⟨hw, hc, hd⟩ | ⟨l, ls, k, ks, hc, hd, -⟩
    · have hf := ht.followed hw
      rw [hc, hd]
      refine ⟨⟨[], [], (K.rest_whole hw).1.symm, (K.rest_whole hw).2.symm, .nil false, .inl hw⟩,
        T.spoiled.append ht.parts (T.trailing hw hf.tail), ht.modulePrefix, .inl hw, fun _ => ?_⟩
      exact ⟨K.leads_nil, hf.limit₁, hf.limit₂, hf.reports, hf.lastReport, hf.reached⟩
    · rw [hc, hd]
      exact ht

/-- What follows the first word of a declaration of no known kind, given the word behind it. -/
def unknownRest (keyword : String) : Option String → Rule Unit
  | some name => do
    report .unknownDeclaration (keyword ++ " " ++ name)
    take
    if ← onlyTriviaLeft then
      node .error (pure ())
  | none => report .expectedKeyword ("a declaration keyword after " ++ quoted keyword)

/-- A declaration of no known kind is its word, a look at the next one, and what is done about it. -/
theorem unknownDecl_eq : unknownDecl = (do
    let keyword ← nextText
    takeKeyword
    let word ← wordAt? 0
    unknownRest keyword word
    return false) := by
  refine bind_congr fun keyword => bind_congr fun _ => bind_congr fun word => ?_
  cases word with
  | none => rfl
  | some name =>
    simp only [unknownRest, bind_assoc]
    refine bind_congr fun _ => bind_congr fun _ => bind_congr fun b => ?_
    cases b <;> rfl

/-- Both read the same declaration of no known kind. -/
theorem unknownDecl_mirrors : Mirrors T.spoil p True (fun o => o.KindAt 0 .name) unknownDecl unknownDecl Same := by
  rw [unknownDecl_eq]
  refine nextText_mirrors.look nextText_looks.keeps fun keyword => ?_
  refine Mirrors.bind (q := True) (A := fun _ _ => Anywhere) ?_ fun _ _ => ?_
  · exact advance_mirrors (fun _ => rfl) (fun o h => h.1.reach_one nofun) fun _ _ _ _ _ => trivial
  refine .look (wordAt?_mirrors 0 fun o _ => K.reach_zero o) (wordAt?_looks 0).keeps fun name => ?_
  refine Mirrors.bind (A := fun _ _ => Anywhere) ?_ fun _ _ => .done false
  cases name with
  | none => exact (report_mirrors (by decide)).imp (fun _ h => h) fun _ _ _ _ => trivial
  | some name =>
    refine (report_mirrors (by decide)).bind fun _ _ => (take_mirrors fun o h => ?_).bind fun _ _ => emptyNode_mirrors
    exact (kindAt_of_wordIn (i := 0) (Option.isSome_of_eq_some h.2.symm)).reach_one nofun

/-- How rows are compared inside a node of a kind. -/
def Rows.inside (T : Rows K) : NodeKind → Rows K
  | .error => T.spoil
  | _ => T

/-- Only inside a node for what could not be used are trees compared otherwise. -/
theorem Rows.inside_of_ne (T : Rows K) {kind : NodeKind} (h : kind ≠ .error) : T.inside kind = T := by
  cases kind <;> first | rfl | exact absurd rfl h

/-- Nodes of a kind correspond if the rows inside do. -/
theorem Rows.node_inside (T : Rows K) {kind : NodeKind} (hm : kind ≠ .occurrence) {ts us : List Tree}
    (h : (T.inside kind).rows.rel ts us) : T.rows.rel [.node kind ts] [.node kind us] := by
  by_cases he : kind = .error
  · subst he
    exact T.error h
  · rw [T.inside_of_ne he] at h
    exact T.node he hm h

/-- The words of a declaration come next, and it was recognised by them. -/
def Outlook.Starts (kind : NodeKind) (o : Outlook) : Prop := declAhead o.ahead = some kind

/-- A declaration that was recognised goes the same way at corresponding places. -/
theorem declBody_mirrors (kind : NodeKind) :
    Mirrors (T.inside kind) p True (Outlook.Starts kind) (declBody kind) (declBody kind) Same := by
  by_cases hk : kind.isSetter = true ∨ kind.isBodyDecl = true
  · have he : kind ≠ .error := by
      rintro rfl
      exact absurd hk (by decide)
    rw [T.inside_of_ne he]
    exact (knownDecl_mirrors hk).of_imp fun _ h => names_of_declAhead h
  have hbody : declBody kind = unknownDecl := by
    cases kind <;> first | rfl | exact absurd (by decide) hk
  rw [hbody]
  by_cases he : kind = .error
  · subst he
    exact unknownDecl_mirrors.of_imp fun _ h => names_of_declAhead h 0 (leadingWords_pos _)
  · refine .never (unknownDecl_mirrors (T := T) (p := p)).keeping fun o h => ?_
    exact (kind_of_declAhead h).elim he hk

/-- Whether trivia are placed makes no difference to what is recognised. -/
theorem Outlook.Starts.placed {kind : NodeKind} {o : Outlook} (h : o.Starts kind) : o.placed.Starts kind := by
  have hwords : ∀ i, wordIn i o.placed.ahead = wordIn i o.ahead := by
    intro i
    obtain ⟨ahead, tail, reached⟩ := o
    cases ahead with
    | nil => rfl
    | cons l ls =>
      cases i with
      | zero => by_cases hk : l.token.kind = .name <;> simp [wordIn, Outlook.placed, Lexeme.bare, Lexeme.kind, Option.filter, hk]
      | succ i => rfl
  unfold Outlook.Starts declAhead
  rw [hwords, hwords, hwords]
  exact h

/-- A declaration in a module that is compared to the end, with its semicolon. -/
theorem declaration_mirrors (hw : K.whole) {kind : NodeKind} {r : Rule Bool} {N : Outlook → Prop} (hm : kind ≠ .occurrence)
    (hN : ∀ o, N o → N o.placed) (h : Mirrors (T.inside kind) p True N r r Same) :
    Mirrors T p True N (declaration kind r) (declaration kind r) Same := by
  rw [declaration_eq]
  refine nodeOf_mirrors (T.node_inside hm) ((toSemicolon_mirrors h).bind fun _ _ => ?_) hN
  exact .test (sees_mirrors .semicolon) (sees_looks .semicolon).keeps ((take_mirrors fun _ _ => .inl hw).bind fun _ _ => .done true)
    (.done false)

/-- So does one that was recognised. There is none of the one kind whose nodes are compared to the letter. -/
theorem recognised_mirrors (hw : K.whole) (kind : NodeKind) :
    Mirrors T p True (Outlook.Starts kind) (declaration kind (declBody kind)) (declaration kind (declBody kind)) Same := by
  by_cases hm : kind = .occurrence
  · subst hm
    have hkeeping : Keeping (declaration .occurrence unknownDecl) := by
      rw [declaration_eq]
      exact node_keeping ((toSemicolon_mirrors (unknownDecl_mirrors (T := T) (p := p))).keeping.bind fun _ => accept_keeping .semicolon)
    refine .never hkeeping fun o h => ?_
    exact absurd (kind_of_declAhead h) (by decide)
  · exact declaration_mirrors hw hm (fun _ h => h.placed) (declBody_mirrors kind)

/-! ## The parts of a module -/

/-- Both read the same clause for an encoding. -/
theorem encodingClause_mirrors : Mirrors T p p P encodingClause encodingClause Same :=
  .test (seesWord_mirrors "encoding") (seesWordAt_looks 0 "encoding").keeps (takeWord_mirrors.bind fun _ _ => stringLiteral_mirrors _)
    (.done true)

/-- Both read the same version declaration, of which a word is ahead. -/
theorem versionDecl_mirrors : Mirrors T p True (fun o => o.KindAt 0 .name) versionDecl versionDecl Same := by
  refine Mirrors.bind (q := True) (A := fun _ _ => Anywhere) ?_ fun _ _ => ?_
  · exact advance_mirrors (fun _ => rfl) (fun o h => h.reach_one nofun) fun _ _ _ _ _ => trivial
  refine .test (seesWord_mirrors "version") (seesWordAt_looks 0 "version").keeps (takeWord_mirrors.bind fun _ _ => ?_)
    encodingClause_mirrors
  exact inOrder_mirrors (by simpa using ⟨stringLiteral_mirrors _, encodingClause_mirrors⟩)

/-- The same prefix is bound on both sides. -/
theorem bindPrefix_mirrors (hw : K.whole) (name : Option String) :
    Mirrors T p p P (modify fun c => { c with modulePrefix := name }) (modify fun c => { c with modulePrefix := name })
      fun _ _ => P where
  keeping _ hn := hn
  agree c d ht hp _ := by
    refine ⟨hp, ht.ahead, ht.parts, rfl, .inl hw, fun _ => ?_⟩
    have hf := ht.followed hw
    exact ⟨hf.tail, hf.limit₁, hf.limit₂, hf.reports, hf.lastReport, hf.reached⟩

/-- Both read the same module declaration, of which two words are ahead. -/
theorem moduleDecl_mirrors (hw : K.whole) : Mirrors T p True (fun o => ∀ i < 2, o.KindAt i .name) moduleDecl moduleDecl Same := by
  refine words_mirrors 1 ?_
  have hrest : Mirrors T True True Anywhere
      (inOrder [expectNCName "module prefix", expect .equals "`=` after module prefix", stringLiteral "module namespace URI"])
      (inOrder [expectNCName "module prefix", expect .equals "`=` after module prefix", stringLiteral "module namespace URI"]) Same :=
    inOrder_mirrors (by simpa using ⟨expectNCName_mirrors _, expect_mirrors .equals _ nofun, stringLiteral_mirrors _⟩)
  refine .test (sees_mirrors .name) (sees_looks .name).keeps ?_ hrest.anywhere
  exact nextText_mirrors.andThen fun name => (bindPrefix_mirrors hw (some name)).bind fun _ _ => hrest.anywhere

/-- Where both readings have come to is where corresponding lexemes end. -/
theorem reached_mirrors (hw : K.whole) {f g : Nat → Rule α} {A : α → α → Outlook → Prop}
    (h : ∀ a b, Mirrors T True q (fun o => (∃ s t, K.same s t ∧ a = s.stop ∧ b = t.stop) ∧ P o) (f a) (g b) A) :
    Mirrors T True q P (get >>= fun c => f c.reached) (get >>= fun d => g d.reached) A where
  keeping c hn := (h c.reached c.reached).keeping c hn
  agree c d ht hp hn := (h c.reached d.reached).agree c d ht ⟨(ht.followed hw).reached trivial, hp⟩ hn

/-- No defect is forgotten where the order of the prolog is checked. -/
theorem checkOrder_keeping (kind : NodeKind) (span : Span) (first : Option Span) : Keeping (checkOrder kind span first) := by
  intro c hn
  rcases checkOrder_run kind span first c with ⟨hrun, -⟩ | ⟨place, -, -, hrun⟩
  · rwa [hrun] at hn
  · rw [hrun] at hn
    exact (addReport_fields c span.start _).2.2.2 ▸ hn

/-- A setter that comes too late is reported at its place and at the place of what it comes after. -/
theorem checkOrder_mirrors (kind : NodeKind) {span span' : Span} {first first' : Option Span}
    (hP : ∀ o, P o → K.Stretch span span' ∧ Option.Rel K.Stretch first first') :
    Mirrors T p p P (checkOrder kind span first) (checkOrder kind span' first') fun _ _ => P := by
  match first, first' with
  | none, none => exact .pure fun _ h => h
  | none, some _ => exact .never (checkOrder_keeping _ _ _) fun o h => nomatch (hP o h).2
  | some _, none => exact .never (checkOrder_keeping _ _ _) fun o h => nomatch (hP o h).2
  | some place, some place' =>
    refine .ite (reportAt_mirrors fun o h _ => ?_) (.pure fun _ h => h)
    obtain ⟨hspan, hplace⟩ := hP o h
    obtain ⟨⟨a, b, hab, ha, hb⟩, -⟩ := id hspan
    cases hplace with
    | some hplace => exact ⟨⟨a, b, .inl hab, ha.symm, hb.symm⟩, rfl, rfl, .stretch rfl hspan, .cons ⟨rfl, hplace⟩ .nil⟩

/-- One declaration of a prolog after another is read on both sides. -/
theorem prologStep_mirrors (hw : K.whole) (first first' : Option Span) :
    Mirrors T p p (fun _ => Option.Rel K.Stretch first first') (prologStep first) (prologStep first') fun r s _ =>
      r.1 = s.1 ∧ if r.1 = true then Option.Rel K.Stretch r.2 s.2 else True := by
  refine .look upcomingDecl_mirrors upcomingDecl_looks.keeps fun kind => ?_
  cases kind with
  | none => exact .pure fun o h => ⟨rfl, trivial⟩
  | some kind =>
    refine (nextSpan_mirrors fun o h => ?_).bind fun span span' => ?_
    · obtain ⟨l, ls, hl, -⟩ := (names_of_declAhead h.2.symm 0 (leadingWords_pos kind)).cons
      exact hl ▸ List.cons_ne_nil _ _
    refine .forget (q := True) (.andKnown (F := K.same span span' ∧ Option.Rel K.Stretch first first') (fun o h => ⟨h.1, h.2.1⟩)
      ((recognised_mirrors hw kind).of_imp fun o h => h.2.2.symm) fun _ => ?_) fun _ => trivial
    refine reached_mirrors hw (f := fun stop => do
      demand (span.start ≤ stop) .reversedSpan
      checkOrder kind ⟨span.start, stop⟩ first
      return (true, if kind.isBodyDecl then some (first.getD ⟨span.start, stop⟩) else first)) (g := fun stop => do
      demand (span'.start ≤ stop) .reversedSpan
      checkOrder kind ⟨span'.start, stop⟩ first'
      return (true, if kind.isBodyDecl then some (first'.getD ⟨span'.start, stop⟩) else first')) fun stop stop' => ?_
    refine Mirrors.of_imp (P := fun _ => K.Stretch ⟨span.start, stop⟩ ⟨span'.start, stop'⟩ ∧ Option.Rel K.Stretch first first') ?_ ?_
    · refine (demand_mirrors _ _ _).bind fun _ _ => Mirrors.bind (checkOrder_mirrors kind fun o h => h.2) fun _ _ => .pure fun o h => ?_
      obtain ⟨-, hspan, hfirst⟩ := h
      refine ⟨rfl, ?_⟩
      rw [if_pos rfl]
      split
      · cases hfirst with
        | none => exact .some hspan
        | some h => exact .some h
      · exact hfirst
    · rintro - ⟨⟨s, t, hst, hs, ht⟩, hspan, hfirst⟩
      exact ⟨⟨⟨span, span', hspan, rfl, rfl⟩, s, t, hst, hs, ht⟩, hfirst⟩

/-- Both read the same declarations of a prolog. -/
theorem prologDecls_mirrors (hw : K.whole) : Mirrors T p p P prologDecls prologDecls fun _ _ => Anywhere := by
  refine Mirrors.bind (A := fun _ _ => Anywhere) ?_ fun _ _ => .pure fun _ h => h
  exact (repeatRule_mirrors (I := fun first first' _ => Option.Rel K.Stretch first first') (Q := fun _ _ _ => True) (prologStep_mirrors hw)
    none none).imp
    (fun _ _ => .none) fun _ _ _ _ => trivial

/-- What is left of a library module is skipped on both sides. -/
theorem libraryTail_mirrors (hw : K.whole) : Mirrors T p p P libraryTail libraryTail fun _ _ => Anywhere := by
  refine nextKind_mirrors.andThen fun _ => .test atEnd_mirrors atEnd_looks.keeps (.pure fun _ _ => trivial) ?_
  refine (reportNext_mirrors (by decide)).bind fun _ _ => ?_
  have hnever : Keeps (pure false : Rule Bool) fun b o => b = true ↔ False := fun c => ⟨rfl, iff_of_false Bool.false_ne_true id⟩
  exact (skipUntil_mirrors (fun _ => .done false) hnever (.inl hw)).imp (fun _ h => h) fun _ _ _ _ => trivial

/-- What is known after a round of a query body. -/
def Pairing.Braces (K : Pairing) (r s : Bool × List Span) (o : Outlook) : Prop :=
  r.1 = s.1 ∧ if r.1 = true then List.Forall₂ K.same r.2 s.2 else o.ahead = [] ∧ List.Forall₂ K.same r.2 s.2

/-- One lexeme of a query body after another is taken on both sides. -/
theorem queryBodyStep_mirrors (hw : K.whole) (stack stack' : List Span) :
    Mirrors T p p (fun _ => List.Forall₂ K.same stack stack') (queryBodyStep stack) (queryBodyStep stack') K.Braces := by
  have hgo : ∀ {Q : Outlook → Prop} (stack stack' : List Span), (∀ o, Q o → List.Forall₂ K.same stack stack') →
      Mirrors T p p Q (do take; return (true, stack)) (do take; return (true, stack')) K.Braces := fun stack stack' hQ =>
    Mirrors.bind (q := p) (advance_mirrors (Q := fun _ => List.Forall₂ K.same stack stack') (fun _ => rfl) (fun _ _ => .inl hw)
      fun _ _ _ _ h => hQ _ h) fun _ _ => .pure fun o h => ⟨rfl, h⟩
  have hunmatched : ∀ {Q : Outlook → Prop}, Mirrors T p p Q (do report .unmatchedDelimiter "`\x7d`"; node .error take; return (true, []))
      (do report .unmatchedDelimiter "`\x7d`"; node .error take; return (true, [])) K.Braces := by
    intro Q
    refine (report_mirrors (by decide)).bind fun _ _ => Mirrors.bind (A := fun _ _ => Anywhere) ?_ fun _ _ => .pure fun o _ => ⟨rfl, .nil⟩
    exact errorNode_mirrors (R := Anywhere) (take_mirrors fun _ _ => .inl hw) fun _ _ => trivial
  refine .look nextKind_mirrors nextKind_looks.keeps fun kind => ?_
  have hother : Mirrors T p p (fun o => List.Forall₂ K.same stack stack' ∧ kind = o.ahead[0]?.map (·.kind))
      (do take; return (true, stack)) (do take; return (true, stack')) K.Braces := hgo stack stack' fun _ h => h.1
  cases kind with
  | none => exact .pure fun o h => ⟨rfl, by simpa using h.2.symm, h.1⟩
  | some kind =>
    cases kind
    case braceOpen =>
      exact (nextSpan_mirrors fun o h hn => by simp [hn] at h).bind fun s t => hgo (s :: stack) (t :: stack') fun o h => .cons h.1 h.2.1
    case braceClose =>
      match stack, stack' with
      | [], [] => exact hunmatched
      | [], _ :: _ => exact .never (hunmatched (Q := Anywhere)).keeping fun o h => nomatch h.1
      | _ :: outer, [] => exact .never (hgo (Q := fun _ => False) outer outer fun _ h => h.elim).keeping fun o h => nomatch h.1
      | _ :: outer, _ :: outer' =>
        refine hgo outer outer' fun o h => ?_
        cases h.1 with
        | cons _ hr => exact hr
    all_goals exact hother

/-- A query body is taken to the end on both sides. -/
theorem queryBody_mirrors (hw : K.whole) : Mirrors T p p P queryBody queryBody fun _ _ => Anywhere := by
  refine nextKind_mirrors.andThen fun _ => .test atEnd_mirrors atEnd_looks.keeps (.pure fun _ _ => trivial) ?_
  refine node_mirrors (R := Anywhere) ?_ (by decide) (by decide) fun _ _ => trivial
  have hloop : Mirrors T p p Anywhere (repeatRule queryBodyStep []) (repeatRule queryBodyStep []) fun stack stack' o =>
      o.ahead = [] ∧ List.Forall₂ K.same stack stack' :=
    (repeatRule_mirrors (I := fun stack stack' _ => List.Forall₂ K.same stack stack') (queryBodyStep_mirrors hw) [] []).of_imp
      fun _ _ => .nil
  refine hloop.bind fun stack stack' => ?_
  match stack, stack' with
  | [], [] => exact .pure fun _ _ => trivial
  | [], _ :: _ => exact .never (fun _ hn => hn) fun o h => nomatch h.2
  | _ :: _, [] => exact .never (reportUnclosed_keeping _ _ _) fun o h => nomatch h.2
  | _ :: _, _ :: _ =>
    refine (reportUnclosed_mirrors _ rfl fun o h => ⟨h.1, ?_⟩).imp (fun _ h => h) fun _ _ _ _ => trivial
    cases h.2 with
    | cons hs _ => exact hs

/-! ## The whole module -/

/-- Both see that a version declaration comes next, or neither does. -/
theorem seesVersionDecl_mirrors (hw : K.whole) : Mirrors T p p P seesVersionDecl seesVersionDecl Same := by
  refine .test (seesWord_mirrors "xquery") (seesWordAt_looks 0 "xquery").keeps ?_ (.done false)
  refine .test (seesWordAt_mirrors 1 "version" fun _ _ => .inl hw) (seesWordAt_looks 1 "version").keeps (.done true) ?_
  exact seesWordAt_mirrors 1 "encoding" fun _ _ => .inl hw

/-- Both see that a module declaration comes next, or neither does. -/
theorem seesModuleDecl_mirrors (hw : K.whole) : Mirrors T p p P seesModuleDecl seesModuleDecl Same :=
  .test (seesWord_mirrors "module") (seesWordAt_looks 0 "module").keeps (seesWordAt_mirrors 1 "namespace" fun _ _ => .inl hw)
    (.done false)

/-- Both read the same library module, of which two words are ahead. -/
theorem libraryModule_mirrors (hw : K.whole) :
    Mirrors T p True (fun o => ∀ i < 2, o.KindAt i .name) libraryModule libraryModule fun _ _ => Anywhere := by
  refine Mirrors.andThen (q := True) ?_ fun _ => .ite ?_ ?_
  · exact declaration_mirrors hw (by decide) (fun o h i hi => (h i hi).placed) (moduleDecl_mirrors hw)
  · exact (nodeWithLead_mirrors (T.node (by decide) (by decide)) (prologDecls_mirrors hw)).bind fun _ _ => libraryTail_mirrors hw
  · refine Mirrors.bind (A := fun _ _ => Anywhere) ?_ fun _ _ => libraryTail_mirrors hw
    exact node_mirrors (prologDecls_mirrors (P := Anywhere) hw) (by decide) (by decide) fun _ h => h

/-- Both read the same main module. -/
theorem mainModule_mirrors (hw : K.whole) : Mirrors T p p P mainModule mainModule fun _ _ => Anywhere := by
  refine Mirrors.bind (A := fun _ _ => Anywhere) ?_ fun _ _ => queryBody_mirrors hw
  exact node_mirrors (prologDecls_mirrors (P := Anywhere) hw) (by decide) (by decide) fun _ _ => trivial

/-- Sources that are compared to the end are read the same way. -/
theorem wholeModule_mirrors (hw : K.whole) : Mirrors T False False Anywhere wholeModule wholeModule fun _ _ => Anywhere := by
  have heat : ∀ {p : Prop}, Mirrors T p False Anywhere eatTrivia eatTrivia fun _ _ => Anywhere := by
    refine lookPast_mirrors.bind fun _ _ => (build_mirrors (·.builder.drain)).bind fun _ _ => ?_
    exact (placeTrivia_mirrors fun _ _ => trivial).forget False.elim
  have hrest : ∀ {p : Prop} {P : Outlook → Prop}, Mirrors T p False P
      (do
        if ← seesModuleDecl then libraryModule else mainModule
        eatTrivia)
      (do
        if ← seesModuleDecl then libraryModule else mainModule
        eatTrivia) fun _ _ => Anywhere := by
    refine .test (seesModuleDecl_mirrors hw) seesModuleDecl_looks.keeps ?_ ((mainModule_mirrors hw).bind fun _ _ => heat)
    exact Mirrors.bind ((libraryModule_mirrors hw).of_imp fun _ h => names_of_module h.2) fun _ _ => heat
  refine nodeWithLead_mirrors (T.node (by decide) (by decide)) ?_
  refine .test (seesVersionDecl_mirrors hw) seesVersionDecl_looks.keeps ?_ hrest
  refine Mirrors.andThen (q := True) ?_ fun _ => hrest
  exact (declaration_mirrors hw (by decide) (fun _ h => h.placed) versionDecl_mirrors).of_imp fun o h => h.2.1.kindAt

end QueryStubs.Grammar
