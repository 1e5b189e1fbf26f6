import QueryStubs.Proofs.Built.Terms

/-!
# What the builder comes to: declarations and modules

A declaration starts behind the trivia in front of it, which were looked past to see that it comes next. Behind its semicolon nothing was
looked past yet (`declaration_writes`), and so a prolog right behind a complete module declaration has the trivia there inside, and any other
prolog does not. At the end every node is finished (`wholeModule_writes`).
-/

namespace QueryStubs.Grammar

open QueryStubs

variable {P : Bool → Outlook → Prop}

/-! ## Variables and options -/

/-- A round of a value writes what it takes. -/
theorem valueStep_writes (b : OpenBrackets) : Writes Anyhow (valueStep b) fun _ => Anyhow := by
  refine nextKind_looked.bind fun kind => ?_
  cases kind with
  | none => exact .pure _ fun _ _ _ => trivial
  | some kind =>
    refine .ite (fun _ => .pure _ fun _ _ _ => trivial) fun _ => ?_
    exact nextSpan_looked.bind fun _ => take_writes.bind fun _ => .pure _ fun _ _ _ => trivial

/-- What closes a value is settled where it is not complete. -/
theorem closeValue_settled (b : OpenBrackets) : Writes P (closeValue b) Settled := by
  unfold closeValue
  split
  · exact (reportUnclosed_writes _ _ _).bind fun _ => no_settled
  · split
    · exact missing_settled _ _
    · exact yes_settled

/-- A value is written behind the trivia in front of its sign, and is settled where it is not complete. -/
theorem varValue_settled : Writes Looked varValue Settled := by
  refine node_looked .varValue ?_ fun _ _ h => h
  exact take_writes.bind fun _ => (repeatRule_anyhow valueStep_writes {}).bind fun _ => closeValue_settled _

/-- What follows the name and the type of a variable is settled where it is not complete. -/
theorem varTail_settled : Writes P varTail Settled := by
  refine (sees_looked .colonEquals).bind fun _ => .ite (fun _ => varValue_settled.of_imp fun _ _ h => h.1) fun _ => ?_
  refine (seesWord_looked "external").bind fun _ => .ite (fun _ => ?_) fun _ => missing_settled _ _
  refine takeKeyword_writes.bind fun _ => (sees_looked .colonEquals).bind fun _ => .ite (fun _ => ?_) fun _ => ?_
  · exact varValue_settled.of_imp fun _ _ h => h.1
  · exact yes_settled

/-- A variable is settled where it is not complete. -/
theorem varDecl_settled : Writes P varDecl Settled := by
  refine (takeKeywords_writes 2).bind fun _ => (accept_writes .dollar).bind fun _ => .ite (fun _ => ?_) fun _ => missing_settled _ _
  exact (expectQName_settled _).andThen (optionalType_settled.andThen varTail_settled)

/-- So is an option. -/
theorem optionDecl_settled : Writes P optionDecl Settled :=
  (takeKeywords_writes 2).bind fun _ => (expectQName_settled _).andThen (stringLiteral_settled _)

/-! ## Functions -/

/-- The prefix of the name that comes next is looked for behind the trivia in front of it. -/
theorem upcomingPrefix_looked : Writes Looked upcomingPrefix fun _ => Looked := by
  refine (seesTouching_writes 1 .colon (countsFromNext_of_looked 0)).bind fun _ => .ite (fun _ => ?_) fun _ => .pure _ fun _ _ h => h.1
  refine ((seesTouching_writes 2 .name (countsFromNext_of_looked 1)).of_imp fun _ _ h => h.1).bind fun _ => ?_
  refine .ite (fun _ => ?_) fun _ => .pure _ fun _ _ h => h.1
  exact nextText_looked.bind fun _ => .pure _ fun _ _ h => h

/-- The check of the namespace writes nothing. -/
theorem checkNamespace_looked : Writes P checkNamespace fun _ => Looked := by
  refine (sees_looked .name).bind fun _ => .ite (fun _ => ?_) fun _ => .pure _ fun _ _ h => h.1
  refine nextSpan_looked.bind fun _ => upcomingPrefix_looked.bind fun _ => get_writes.bind fun _ => ?_
  exact .ite (fun _ => reportAt_writes _ _ _ _) fun _ => .pure _ fun _ _ h => h

/-- A parameter is written behind the trivia in front of it, and is settled where it is not complete. -/
theorem param_settled : Writes Looked param Settled :=
  node_looked .param (take_writes.bind fun _ => (expectQName_settled _).andThen optionalType_settled) fun _ _ h => h

/-- A round of a list of parameters goes on behind a comma, and is settled where it ends with a parameter that is not complete. -/
theorem paramStep_writes (a : Bool) : Writes P (paramStep a) fun r l o => if r.1 = true then r.2 = true else Settled r.2 l o := by
  refine (sees_looked .dollar).bind fun _ => .ite (fun _ => ?_) fun _ => ?_
  · refine (param_settled.of_imp fun _ _ h => h.1).bind fun _ => .ite (fun _ => ?_) fun hb => .pure (false, false) fun _ _ h _ => h hb
    refine (accept_writes .comma).bind fun go => .pure (go, true) fun l o _ => ?_
    cases go with
    | true => exact rfl
    | false => exact fun h => nomatch h
  · exact (report_writes _ _).bind fun _ => .pure (false, false) fun _ _ h _ => .inl h

/-- The parenthesis that closes them is settled where there is none. -/
theorem closeParams_settled (opening : Span) : Writes P (closeParams opening) Settled := by
  refine (accept_writes .parenClose).bind fun _ => .ite (fun _ => yes_settled) fun hb => ?_
  have hlooked : ∀ l (o : Outlook), (l = !false) → Shows l o := fun _ _ h => .inl h
  rw [hb]
  refine (atEnd_writes hlooked).bind fun _ => .ite (fun _ => ?_) fun _ => missing_settled _ _
  exact (reportUnclosed_writes _ _ _).bind fun _ => no_settled

/-- A list of parameters is written behind the trivia in front of it, and is settled where it is not complete. -/
theorem paramList_settled : Writes Looked paramList Settled := by
  refine node_looked .paramList ?_ fun _ _ h => h
  refine nextSpan_looked.bind fun opening => take_writes.bind fun _ => (sees_looked .parenClose).bind fun _ => ?_
  refine .ite (fun _ => closeParams_settled opening) fun _ => (repeatRule_settled fun a => paramStep_writes a).bind fun _ => ?_
  exact .ite (fun _ => closeParams_settled opening) fun hb => .pure false fun _ _ h _ => h hb

/-- The body of a function is settled where there is none or it is not closed. -/
theorem functionBody_settled : Writes P functionBody Settled := by
  refine (sees_looked .braceOpen).bind fun _ => .ite (fun _ => ?_) fun _ => ?_
  · exact node_looked .enclosedBody (balanced_settled _ _ _ _) fun _ _ h => h.1
  · refine (seesWord_looked "external").bind fun _ => .ite (fun _ => ?_) fun _ => missing_settled _ _
    refine (node_looked .externalBody takeKeyword_writes fun _ _ h => h.1).bind fun _ => ?_
    exact yes_settled

/-- What follows the name of a function is settled where it is not complete. -/
theorem functionTail_settled : Writes P functionTail Settled := by
  refine (sees_looked .parenOpen).bind fun _ => .ite (fun _ => ?_) fun _ => missing_settled _ _
  exact (paramList_settled.of_imp fun _ _ h => h.1).andThen (optionalType_settled.andThen functionBody_settled)

/-- A function is. -/
theorem functionDecl_settled : Writes P functionDecl Settled :=
  (takeKeywords_writes 2).bind fun _ => checkNamespace_looked.bind fun _ => (expectQName_settled _).andThen functionTail_settled

/-! ## Namespaces, imports and setters -/

/-- What is read in order is settled if each part of it is. -/
theorem inOrder_settled {rules : List (Rule Bool)} (h : ∀ rule ∈ rules, Writes Anyhow rule Settled) : Writes P (inOrder rules) Settled := by
  induction rules generalizing P with
  | nil => exact yes_settled
  | cons rule rules ih =>
    exact (h rule List.mem_cons_self).anyhow.andThen (ih fun r hr => h r (List.mem_cons_of_mem _ hr))

/-- Two things in order. -/
theorem inOrder_settled₂ {a b : Rule Bool} (ha : Writes Anyhow a Settled) (hb : Writes Anyhow b Settled) :
    Writes P (inOrder [a, b]) Settled :=
  inOrder_settled (List.forall_mem_cons.mpr ⟨ha, List.forall_mem_singleton.mpr hb⟩)

/-- Three things in order. -/
theorem inOrder_settled₃ {a b c : Rule Bool} (ha : Writes Anyhow a Settled) (hb : Writes Anyhow b Settled)
    (hc : Writes Anyhow c Settled) : Writes P (inOrder [a, b, c]) Settled :=
  inOrder_settled (List.forall_mem_cons.mpr ⟨ha, List.forall_mem_cons.mpr ⟨hb, List.forall_mem_singleton.mpr hc⟩⟩)

/-- A word that is required is settled where there is another. -/
theorem expectWord_settled (word : String) : Writes P (expectWord word) Settled := expectWordOf_settled [word]

/-- A prefix that is bound is settled where it is not complete. -/
theorem prefixBinding_settled : Writes P prefixBinding Settled := inOrder_settled₂ (expectNCName_settled _) (expect_settled _ _)

/-- What needs its keywords only is settled if what follows them is. -/
theorem keywords_settled (n : Nat) {rule : Rule Bool} (h : Writes Anyhow rule Settled) :
    Writes P (takeKeywords n >>= fun _ => rule) Settled :=
  (takeKeywords_writes n).bind fun _ => h

/-- A further place of an import comes behind a comma. -/
theorem locationStep_writes (a : Bool) : Writes P (locationStep a) fun r l o => if r.1 = true then r.2 = true else Settled r.2 l o := by
  refine (accept_writes .comma).bind fun _ => .ite (fun _ => ?_) fun _ => .pure (false, true) fun _ _ _ h => nomatch h
  refine (stringLiteral_settled _).bind fun _ => .ite (fun _ => .pure (true, true) fun _ _ _ => rfl) fun hb => ?_
  exact .pure (false, false) fun _ _ h _ => h hb

/-- The places of an import are settled where one is missing. -/
theorem locationHints_settled : Writes P locationHints Settled := by
  refine (seesWord_looked "at").bind fun _ => .ite (fun _ => ?_) fun _ => yes_settled
  exact takeKeyword_writes.bind fun _ => (stringLiteral_settled _).andThen (repeatRule_settled fun a => locationStep_writes a)

/-- The prefix that a module is bound to is settled where it is not complete. -/
theorem moduleTarget_settled : Writes P moduleTarget Settled := by
  refine (seesWord_looked "namespace").bind fun _ => .ite (fun _ => ?_) fun _ => yes_settled
  exact takeKeyword_writes.bind fun _ => prefixBinding_settled

/-- So is the one that a schema is. -/
theorem schemaTarget_settled : Writes P schemaTarget Settled := by
  refine (seesWord_looked "namespace").bind fun _ => .ite (fun _ => takeKeyword_writes.bind fun _ => prefixBinding_settled) fun _ => ?_
  refine (seesWord_looked "default").bind fun _ => .ite (fun _ => ?_) fun _ => yes_settled
  exact takeKeyword_writes.bind fun _ => inOrder_settled₂ (expectWord_settled _) (expectWord_settled _)

/-! ## Declarations -/

/-- What kind of declaration comes next is found behind the trivia in front of it. -/
theorem upcomingDecl_looked : Writes P upcomingDecl fun _ => Looked := by
  have hword : ∀ i, Writes Looked (wordAt? i) fun _ => Looked := fun i =>
    ((wordAt?_writes (R := fun _ => True) i).imp (fun _ _ _ => trivial) fun _ _ _ h => h.1)
  refine (seesWord_looked "import").bind fun _ => .ite (fun _ => ?_) fun _ => ?_
  · refine ((hword 1).of_imp fun _ _ h => h.1).bind fun _ => ?_
    split <;> exact .pure _ fun _ _ h => h
  · refine (seesWord_looked "declare").bind fun _ => .ite (fun _ => ?_) fun _ => .pure _ fun _ _ h => h.1
    refine ((hword 1).of_imp fun _ _ h => h.1).bind fun _ => ?_
    split
    case h_3 =>
      refine (hword 2).bind fun _ => ?_
      split <;> exact .pure _ fun _ _ h => h
    all_goals exact .pure _ fun _ _ h => h

/-- So is whether a declaration may end. -/
theorem atRecovery_looked : Writes P atRecovery fun _ => Looked := by
  refine (sees_looked .semicolon).bind fun _ => .ite (fun _ => .pure _ fun _ _ h => h.1) fun _ => ?_
  exact upcomingDecl_looked.bind fun _ => .pure _ fun _ _ h => h

/-- A declaration is written behind the trivia in front of it, and skipped from where it is not complete. Behind its semicolon nothing was
looked past. -/
theorem declaration_writes (kind : NodeKind) {rule : Rule Bool} (h : Writes Anyhow rule Settled) :
    Writes Looked (declaration kind rule) fun b l _ => l = !b := by
  have hskip : Writes Shows (skipUntil atRecovery) fun _ => Anyhow :=
    skipUntil_writes atRecovery_looked (fun _ _ h => h) fun _ => .inl rfl
  refine node_looked kind (h.bind fun _ => .ite (fun _ => ?_) fun hb => ?_) fun _ _ h => h
  · refine (sees_looked .semicolon).bind fun _ => .ite (fun _ => accept_writes _) fun _ => ?_
    refine (report_writes _ _).bind fun _ => (hskip.of_imp fun _ _ h => .inl h).bind fun _ => accept_writes _
  · exact (hskip.of_imp fun _ _ h => h hb).bind fun _ => accept_writes _

/-- The clause for an encoding is settled where it is not complete. -/
theorem encodingClause_settled : Writes P encodingClause Settled := by
  refine (seesWord_looked "encoding").bind fun _ => .ite (fun _ => ?_) fun _ => yes_settled
  exact takeKeyword_writes.bind fun _ => stringLiteral_settled _

/-- A version declaration is. -/
theorem versionDecl_settled : Writes P versionDecl Settled := by
  refine takeKeyword_writes.bind fun _ => (seesWord_looked "version").bind fun _ => .ite (fun _ => ?_) fun _ => encodingClause_settled
  exact takeKeyword_writes.bind fun _ => inOrder_settled₂ (stringLiteral_settled _) encodingClause_settled

/-- A module declaration is. -/
theorem moduleDecl_settled : Writes P moduleDecl Settled := by
  have hrest : ∀ {P : Bool → Outlook → Prop}, Writes P (inOrder [expectNCName "module prefix", expect .equals "`=` after module prefix",
      stringLiteral "module namespace URI"]) Settled :=
    inOrder_settled₃ (expectNCName_settled _) (expect_settled _ _) (stringLiteral_settled _)
  refine (takeKeywords_writes 2).bind fun _ => (sees_looked .name).bind fun _ => .ite (fun _ => ?_) fun _ => hrest
  refine nextText_looked.bind fun name => Writes.bind (.of_same fun _ => ⟨rfl, rfl, rfl⟩) fun _ => hrest

/-- If trivia are all that is left, they were looked past, and otherwise it shows whether anything is left. -/
theorem onlyTriviaLeft_writes : Writes P onlyTriviaLeft fun b l o => if b = true then Looked l o else Shows l o := by
  intro c hc hp
  have hrun : onlyTriviaLeft c =
      (if (c.ahead.isEmpty && !c.tail.isEmpty) = true then lookPast >>= fun _ => pure true else pure false : Rule Bool) c := rfl
  rw [hrun]
  cases hleft : c.ahead.isEmpty && !c.tail.isEmpty with
  | true => exact lookPast_looked c hc hp
  | false =>
    refine ⟨hc, rfl, .inr ?_⟩
    change c.ahead ≠ [] ∨ c.tail = []
    simpa [Classical.or_iff_not_imp_left] using hleft

/-- A declaration of no known kind is settled. -/
theorem unknownDecl_settled : Writes P unknownDecl Settled := by
  refine nextText_looked.bind fun keyword => takeKeyword_writes.bind fun _ => ?_
  refine (peek_map_looked 0 _).bind fun name => ?_
  cases name with
  | none => exact (report_writes _ _).bind fun _ => no_settled
  | some name =>
    refine (report_writes _ _).bind fun _ => take_writes.bind fun _ => onlyTriviaLeft_writes.bind fun _ => .ite (fun hb => ?_) fun hb => ?_
    · have hempty : Writes Looked (pure ()) fun _ => Looked := .pure () fun _ _ h => h
      refine (node_writes .error hempty fun _ _ h => ⟨by rw [hb] at h; exact h, rfl⟩).bind fun _ => ?_
      exact no_settled
    · exact .pure false fun _ _ h _ => by rw [hb] at h; exact h

/-- What a declaration consists of is settled where it is not complete. -/
theorem declBody_settled (kind : NodeKind) : Writes P (declBody kind) Settled := by
  unfold declBody
  split
  · exact keywords_settled 2 (inOrder_settled₂ prefixBinding_settled (stringLiteral_settled _))
  · exact keywords_settled 2 (expectWordOf_settled _)
  · exact keywords_settled 3 (inOrder_settled₂ (expectWord_settled _) (stringLiteral_settled _))
  · exact keywords_settled 3 (stringLiteral_settled _)
  · exact keywords_settled 3 (inOrder_settled₂ (expectWord_settled _) (expectWordOf_settled _))
  · exact keywords_settled 2 (stringLiteral_settled _)
  · exact keywords_settled 2 (expectWordOf_settled _)
  · exact keywords_settled 2 (expectWordOf_settled _)
  · exact keywords_settled 2 (inOrder_settled₃ (expectWordOf_settled _) (expect_settled _ _) (expectWordOf_settled _))
  · exact keywords_settled 2 (inOrder_settled₃ schemaTarget_settled (stringLiteral_settled _) locationHints_settled)
  · exact keywords_settled 2 (inOrder_settled₃ moduleTarget_settled (stringLiteral_settled _) locationHints_settled)
  · exact varDecl_settled
  · exact functionDecl_settled
  · exact optionDecl_settled
  · exact unknownDecl_settled

/-! ## Modules -/

/-- The check of the order of declarations writes nothing. -/
theorem checkOrder_writes (kind : NodeKind) (span : Span) (first : Option Span) : Writes P (checkOrder kind span first) fun _ => P := by
  cases first with
  | none => exact .pure _ fun _ _ h => h
  | some place => exact .ite (fun _ => reportAt_writes _ _ _ _) fun _ => .pure _ fun _ _ h => h

/-- A round of a prolog writes the declaration that comes next. -/
theorem prologStep_writes (first : Option Span) : Writes Anyhow (prologStep first) fun _ => Anyhow := by
  refine upcomingDecl_looked.bind fun kind => ?_
  cases kind with
  | none => exact .pure _ fun _ _ _ => trivial
  | some kind =>
    refine nextSpan_looked.bind fun span => (declaration_writes kind (declBody_settled kind)).bind fun _ => get_writes.bind fun c => ?_
    refine (demand_writes _ _).bind fun _ => (checkOrder_writes _ _ _).bind fun _ => .pure _ fun _ _ _ => trivial

/-- The declarations of a module are written. -/
theorem prologDecls_writes : Writes P prologDecls fun _ => Anyhow :=
  (repeatRule_anyhow prologStep_writes none).bind fun _ => .pure _ fun _ _ _ => trivial

/-- What is left after the prolog of a library module is. -/
theorem libraryTail_writes : Writes P libraryTail fun _ => Anyhow := by
  refine nextKind_looked.bind fun _ => (atEnd_writes fun _ _ h => .inl h.1).bind fun _ => .ite (fun _ => .pure _ fun _ _ _ => trivial) fun _ => ?_
  refine (reportNext_writes _ _).bind fun _ => ?_
  exact skipUntil_writes (.pure false fun _ _ h => h) (fun _ _ h => .inl h) fun _ => rfl

/-- A round of a query body is written. -/
theorem queryBodyStep_writes (stack : List Span) : Writes P (queryBodyStep stack) fun _ => Anyhow := by
  refine nextKind_looked.bind fun kind => ?_
  split
  · exact .pure _ fun _ _ _ => trivial
  · exact nextSpan_looked.bind fun _ => take_writes.bind fun _ => .pure _ fun _ _ _ => trivial
  · cases stack with
    | nil =>
      refine (report_writes _ _).bind fun _ => ?_
      exact (node_looked .error take_writes fun _ _ h => h).bind fun _ => .pure _ fun _ _ _ => trivial
    | cons opening outer => exact take_writes.bind fun _ => .pure _ fun _ _ _ => trivial
  · exact take_writes.bind fun _ => .pure _ fun _ _ _ => trivial

/-- A query body is written behind the trivia in front of it. -/
theorem queryBody_writes : Writes P queryBody fun _ => Anyhow := by
  have hloop : Writes Anyhow (repeatRule queryBodyStep []) fun _ => Anyhow := repeatRule_anyhow (fun stack => queryBodyStep_writes stack) []
  refine nextKind_looked.bind fun _ => (atEnd_writes fun _ _ h => .inl h.1).bind fun _ => .ite (fun _ => .pure _ fun _ _ _ => trivial) fun _ => ?_
  refine node_looked .queryBody (hloop.bind fun stack => ?_) fun _ _ h => h.1.1
  cases stack with
  | nil => exact .pure _ fun _ _ _ => trivial
  | cons opening outer => exact (reportUnclosed_writes _ _ _).imp (fun _ _ h => h) fun _ _ _ _ => trivial

/-- The kind of a module is found behind the trivia in front of it. -/
theorem seesModuleDecl_looked : Writes P seesModuleDecl fun _ => Looked := by
  refine (seesWord_looked "module").bind fun _ => .ite (fun _ => ?_) fun _ => .pure _ fun _ _ h => h.1
  exact peek_map_looked 1 _

/-- So is whether a version declaration comes first. -/
theorem seesVersionDecl_looked : Writes P seesVersionDecl fun _ => Looked := by
  refine (seesWord_looked "xquery").bind fun _ => .ite (fun _ => ?_) fun _ => .pure _ fun _ _ h => h.1
  refine (peek_map_looked 1 _).bind fun _ => .ite (fun _ => .pure _ fun _ _ h => h) fun _ => peek_map_looked 1 _

/-- A library module is written. Its prolog starts right behind a complete module declaration, and otherwise behind the trivia that come next. -/
theorem libraryModule_writes : Writes Looked libraryModule fun _ => Anyhow := by
  refine (declaration_writes .moduleDecl moduleDecl_settled).bind fun _ => .ite (fun hb => ?_) fun hb => ?_
  · exact (nodeWithLead_writes .prolog prologDecls_writes fun _ _ h => by rw [hb] at h; exact h).bind fun _ => libraryTail_writes
  · exact (node_looked .prolog prologDecls_writes fun _ _ h => by rw [hb] at h; exact h).bind fun _ => libraryTail_writes

/-- A main module is. -/
theorem mainModule_writes : Writes Looked mainModule fun _ => Anyhow :=
  (node_looked .prolog prologDecls_writes fun _ _ h => h).bind fun _ => queryBody_writes

/-- A module is written from its start, and every node of it is finished. -/
theorem wholeModule_writes : Writes Fresh wholeModule fun _ => Anyhow := by
  have hrest : ∀ {P : Bool → Outlook → Prop}, Writes P
      (do
        if ← seesModuleDecl then libraryModule else mainModule
        eatTrivia) fun _ => Anyhow := by
    intro P
    refine seesModuleDecl_looked.bind fun _ => .ite (fun _ => ?_) fun _ => ?_
    · exact libraryModule_writes.bind fun _ => eatTrivia_writes
    · exact mainModule_writes.bind fun _ => eatTrivia_writes
  refine nodeWithLead_writes (P := Fresh) .root ?_ fun _ _ h => h
  refine seesVersionDecl_looked.bind fun _ => .ite (fun _ => ?_) fun _ => hrest
  exact (declaration_writes .versionDecl versionDecl_settled).bind fun _ => hrest

end QueryStubs.Grammar
