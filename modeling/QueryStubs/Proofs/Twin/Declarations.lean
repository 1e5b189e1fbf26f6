import QueryStubs.Grammar.Function
import QueryStubs.Grammar.Variable
import QueryStubs.Grammar.Setter
import QueryStubs.Proofs.Reader.Declarations
import QueryStubs.Proofs.Twin.Types

/-!
# Declarations side by side

Functions, variables, options, setters and imports, each without its semicolon, go the same way at corresponding places. The value of a
variable is the one scan that goes by brackets of all shapes; what it owes is counted over all of them.
-/

namespace QueryStubs.Grammar

open QueryStubs

variable {K : Pairing} {T : Rows K} {p q : Prop} {P : Outlook → Prop}

/-- The words that a declaration was recognised by are names, and behind them it goes the same way on both sides. -/
theorem words_mirrors (n : Nat) {r : Rule Bool} (h : Mirrors T True True Anywhere r r Same) :
    Mirrors T p True (fun o => ∀ i < n + 1, o.KindAt i .name) (takeKeywords (n + 1) >>= fun _ => r) (takeKeywords (n + 1) >>= fun _ => r)
      Same :=
  (takeKeywords_mirrors n).bind fun _ _ => h

/-! ## Functions -/

/-- Where a name comes next both readings find the same prefix. -/
theorem upcomingPrefix_mirrors (hP : ∀ o, P o → o.KindAt 0 .name) : Mirrors T p p P upcomingPrefix upcomingPrefix Same := by
  refine .test (seesTouching_mirrors 1 .colon (fun o h => (hP o h).reach_one nofun) (.inl rfl)) (seesTouching_looks 1 .colon).keeps ?_
    (.done none)
  refine .test (seesTouching_mirrors 2 .name (fun o h => ?_) (.inr (.inr fun o h => h.2.before))) (seesTouching_looks 2 .name).keeps
    (nextText_mirrors.andThen fun _ => .done _) (.done none)
  exact h.2.kindAt.reach nofun ((hP o h.1).reach_one nofun)

/-- Both check the namespace of a function, or neither does, and go on from the same place. -/
theorem checkNamespace_mirrors : Mirrors T p p P checkNamespace checkNamespace fun _ _ => Anywhere := by
  refine .test (sees_mirrors .name) (sees_looks .name).keeps ?_ (.pure fun _ _ => trivial)
  refine (nextSpan_mirrors fun o h => ?_).bind fun span span' => ?_
  · obtain ⟨l, ls, hl, -⟩ := h.2.cons
    exact hl ▸ List.cons_ne_nil _ _
  refine .andKnown (F := K.same span span') (fun o h => h.1) (upcomingPrefix_mirrors fun o h => h.2.2) fun found => ?_
  refine modulePrefix_mirrors (A := fun _ _ => Anywhere)
    (f := fun bound => if bound.isSome && found ≠ bound then reportAt _ span found [] else pure ())
    (g := fun bound => if bound.isSome && found ≠ bound then reportAt _ span' found [] else pure ()) fun bound => ?_
  refine .ite ?_ (.pure fun _ _ => trivial)
  exact (reportLexeme_mirrors (by decide) fun _ h => h).imp (fun _ h => h) fun _ _ _ _ => trivial

/-- Both read the same parameter. -/
theorem param_mirrors : Mirrors T p p (fun o => o.KindAt 0 .dollar) param param Same := by
  refine node_mirrors (R := fun o => o.KindAt 0 .dollar) ?_ (by decide) (by decide) fun o h => h.placed
  exact (take_mirrors fun o h => h.reach_one nofun).bind fun _ _ => (expectQName_mirrors _).whenDone optionalType_mirrors

/-- Both read the same round of the parameters. -/
theorem paramStep_mirrors (a : Bool) : Mirrors T p p P (paramStep a) (paramStep a) Same := by
  refine .test (sees_mirrors .dollar) (sees_looks .dollar).keeps ?_ ((report_mirrors (by decide)).bind fun _ _ => .done _)
  refine (param_mirrors.of_imp fun _ h => h.2).andThen fun _ => .ite ?_ (.done _)
  exact (accept_mirrors .comma nofun).andThen fun _ => .done _

/-- Both close the parameters, or both report where they were opened. -/
theorem closeParams_mirrors (opening opening' : Span) :
    Mirrors T p p (fun _ => K.same opening opening') (closeParams opening) (closeParams opening') Same := by
  refine .andKnown (fun _ h => h) (accept_mirrors .parenClose nofun) fun _ => .ite (.done true) ?_
  refine .test atEnd_mirrors atEnd_looks.keeps ?_ ((report_mirrors (by decide)).bind fun _ _ => .done false)
  exact (reportUnclosed_mirrors _ rfl fun o h => ⟨h.2, h.1⟩).bind fun _ _ => .done false

/-- Both read the same list of parameters. -/
theorem paramList_mirrors : Mirrors T p p (fun o => o.KindAt 0 .parenOpen) paramList paramList Same := by
  refine node_mirrors (R := fun o => o.KindAt 0 .parenOpen) ?_ (by decide) (by decide) fun o h => h.placed
  refine opening_mirrors (by decide) (decide_eq_true rfl) (decide_eq_false nofun) K.closes_parens fun opening opening' => ?_
  refine .test (sees_mirrors .parenClose) (sees_looks .parenClose).keeps ((closeParams_mirrors _ _).of_imp fun _ h => h.1.1) ?_
  refine .andKnown (fun _ h => h.1.1) (repeatRule_same (fun a => paramStep_mirrors a) true) fun _ => ?_
  exact .ite (closeParams_mirrors _ _) (.done false)

/-- Both read the same body in braces. -/
theorem enclosedBody_mirrors : Mirrors T p p (fun o => o.KindAt 0 .braceOpen) enclosedBody enclosedBody Same :=
  node_mirrors (R := fun o => o.KindAt 0 .braceOpen) (balanced_mirrors _ nofun nofun nofun rfl K.closes_braces) (by decide) (by decide)
    fun _ h => h.placed

/-- Both read the same body of a function. -/
theorem functionBody_mirrors : Mirrors T p p P functionBody functionBody Same := by
  refine .test (sees_mirrors .braceOpen) (sees_looks .braceOpen).keeps (enclosedBody_mirrors.of_imp fun _ h => h.2) ?_
  refine .test (seesWord_mirrors "external") (seesWordAt_looks 0 "external").keeps ?_
    ((reportNext_mirrors (by decide)).bind fun _ _ => .done false)
  refine Mirrors.bind (A := fun _ _ => Anywhere) ?_ fun _ _ => .done true
  refine node_mirrors (R := fun o => o.KindAt 0 .name) ?_ (by decide) (by decide) fun o h => h.2.kindAt.placed
  exact takeKeyword_mirrors fun o h => h.reach_one nofun

/-- Both read the same that follows the words of a function. -/
theorem functionTail_mirrors : Mirrors T p p P functionTail functionTail Same := by
  refine .test (sees_mirrors .parenOpen) (sees_looks .parenOpen).keeps ?_ ((report_mirrors (by decide)).bind fun _ _ => .done false)
  exact (paramList_mirrors.of_imp fun _ h => h.2).whenDone (optionalType_mirrors.whenDone functionBody_mirrors)

/-- Both read the same function, of which two words are ahead. -/
theorem functionDecl_mirrors : Mirrors T p True (fun o => ∀ i < 2, o.KindAt i .name) functionDecl functionDecl Same :=
  words_mirrors 1 (checkNamespace_mirrors.bind fun _ _ => (expectQName_mirrors _).whenDone functionTail_mirrors)

/-! ## Variables and options -/

/-- Brackets that are open in corresponding values. -/
structure Pairing.Open (K : Pairing) (b c : OpenBrackets) : Prop where
  stack : List.Forall₂ (fun x y : TokenKind × Span => x.1 = y.1 ∧ K.same x.2 y.2) b.stack c.stack
  isEmpty : b.isEmpty = c.isEmpty

/-- Brackets are open on one side just if they are on the other. -/
theorem Pairing.Open.isEmpty_eq {b c : OpenBrackets} (h : K.Open b c) : b.stack.isEmpty = c.stack.isEmpty := by
  have hstack := h.stack
  generalize b.stack = bs, c.stack = cs at hstack
  cases hstack with
  | nil => rfl
  | cons _ _ => rfl

/-- Brackets stay so behind corresponding lexemes. -/
theorem Pairing.Open.after {b c : OpenBrackets} (h : K.Open b c) (kind : TokenKind) {s t : Span} (hs : K.same s t) :
    K.Open (b.after kind s) (c.after kind t) := by
  unfold OpenBrackets.after
  split
  · exact ⟨.cons ⟨rfl, hs⟩ h.stack, rfl⟩
  split
  · refine ⟨?_, rfl⟩
    have hstack := h.stack
    generalize b.stack = bs, c.stack = cs at hstack
    cases hstack with
    | nil => exact .nil
    | cons _ hr => exact hr
  · exact ⟨h.stack, rfl⟩

/-- Behind a lexeme of a value as many brackets are open as it makes of those before it. -/
theorem length_after {b : OpenBrackets} {kind : TokenKind} (span : Span) (h : b.stack = [] → kind.isClosing = false) :
    (b.after kind span).stack.length + (if kind.isClosing = true then 1 else 0) ≤
      b.stack.length + if kind.isOpening = true then 1 else 0 := by
  unfold OpenBrackets.after
  by_cases ho : kind.isOpening = true
  · have hc : kind.isClosing = false := by cases kind <;> simp_all [TokenKind.isOpening, TokenKind.isClosing]
    simp [ho, hc]
  by_cases hc : kind.isClosing = true
  · have hne : b.stack ≠ [] := fun hn => by simp [h hn] at hc
    have hpos := List.length_pos_iff.mpr hne
    rw [if_neg ho, if_neg ho, if_pos hc, if_pos hc, List.length_tail]
    omega
  · simp [ho, hc]

/-- Where a value stands: the same brackets are open on both sides, and they are still to be closed. -/
structure Pairing.Within (K : Pairing) (b c : OpenBrackets) (o : Outlook) : Prop where
  brackets : K.Open b c
  owes : K.Owes TokenKind.isOpening TokenKind.isClosing b.stack.length o

/-- Where a value ends: brackets are still open only at the end. -/
structure Pairing.Ended (K : Pairing) (b c : OpenBrackets) (o : Outlook) : Prop where
  brackets : K.Open b c
  atEnd : b.stack ≠ [] → o.ahead = []

/-- Both read a round of a value and have corresponding brackets open behind it. -/
theorem valueStep_mirrors (b c : OpenBrackets) :
    Mirrors T p p (K.Within b c) (valueStep b) (valueStep c) fun r s o =>
      r.1 = s.1 ∧ if r.1 = true then K.Within r.2 s.2 o else K.Ended r.2 s.2 o := by
  refine .look nextKind_mirrors nextKind_looks.keeps fun kind => ?_
  cases kind with
  | none => exact .pure fun o h => ⟨rfl, h.1.brackets, fun _ => by simpa using h.2.symm⟩
  | some kind =>
    refine .ite_known (fun o h => ?_) (.pure fun o h => ⟨rfl, h.1.1.brackets, fun hne => ?_⟩) ?_
    · rw [h.1.brackets.isEmpty_eq]
    · simp only [Bool.and_eq_true, List.isEmpty_iff] at h
      exact absurd h.2.1 hne
    have houtside : (b.stack.isEmpty && (decide (kind = .semicolon) || kind.isClosing)) = false → b.stack = [] →
        kind ≠ .semicolon ∧ kind.isClosing = false := by
      intro hgo hn
      simpa [hn] using hgo
    have hreach : ∀ o : Outlook, (K.Within b c o ∧ some kind = o.ahead[0]?.map (·.kind)) ∧
        (b.stack.isEmpty && (decide (kind = .semicolon) || kind.isClosing)) = false → K.Reach 1 o := by
      rintro o ⟨⟨hw, hk⟩, hgo⟩
      by_cases hn : b.stack = []
      · exact Outlook.KindAt.reach_one hk.symm (houtside hgo hn).1
      · exact hw.owes.reach (List.length_pos_iff.mpr hn) rfl
    refine (nextSpan_mirrors fun o h hn => by simp [hn] at h).bind fun s t => ?_
    refine Mirrors.bind (q := p) (advance_mirrors (Q := K.Within (b.after kind s) (c.after kind t)) (fun _ => rfl)
      (fun o h => hreach o h.2) fun l ls tail place ⟨hs, h⟩ => ?_) fun _ _ => .pure fun o h => ⟨rfl, h⟩
    obtain rfl : kind = l.kind := Option.some.inj h.1.2
    exact ⟨h.1.1.brackets.after _ hs, h.1.1.owes.step (hreach _ h) (length_after s fun hn => (houtside h.2 hn).2)⟩

/-- No defect is forgotten where a value is closed. -/
theorem closeValue_keeping (b : OpenBrackets) : Keeping (closeValue b) := by
  intro c hn
  obtain ⟨stack, isEmpty⟩ := b
  cases stack with
  | cons x stack => exact reportUnclosed_keeping _ _ _ c hn
  | nil =>
    cases isEmpty with
    | true => exact (addReport_fields c.look c.nextSpan.start _).2.2.2 ▸ hn
    | false => exact hn

/-- Both close a value, or both report the bracket that is open. -/
theorem closeValue_mirrors (b c : OpenBrackets) : Mirrors T p p (K.Ended b c) (closeValue b) (closeValue c) Same := by
  obtain ⟨bs, be⟩ := b
  obtain ⟨cs, ce⟩ := c
  match bs, cs with
  | [], [] => exact .ite_known (fun o h => h.brackets.isEmpty) ((report_mirrors (by decide)).bind fun _ _ => .done false) (.done true)
  | x :: bs, [] => exact .never (closeValue_keeping _) fun o h => nomatch h.brackets.stack
  | [], y :: cs => exact .never (closeValue_keeping _) fun o h => nomatch h.brackets.stack
  | (kind, opening) :: bs, (kind', opening') :: cs =>
    by_cases hk : kind = kind'
    · subst hk
      have hstructural : (if kind = .braceOpen then DiagnosticKind.unclosedBody else .unclosedParens).isStructural = true := by
        split <;> rfl
      refine (reportUnclosed_mirrors _ hstructural fun o h => ⟨h.atEnd (List.cons_ne_nil _ _), ?_⟩).bind fun _ _ => .done false
      cases h.brackets.stack with
      | cons hx _ => exact hx.2
    · refine .never (closeValue_keeping _) fun o h => ?_
      cases h.brackets.stack with
      | cons hx _ => exact hk hx.1

/-- Both read the same value of a variable. -/
theorem varValue_mirrors : Mirrors T p p (fun o => o.KindAt 0 .colonEquals) varValue varValue Same := by
  refine node_mirrors (R := fun o => o.KindAt 0 .colonEquals) ?_ (by decide) (by decide) fun o h => h.placed
  refine (take_mirrors fun o h => h.reach_one nofun).bind fun _ _ => .of_closed K.closes_all ?_
  refine (repeatRule_mirrors (I := K.Within) (Q := K.Ended) valueStep_mirrors {} {}).of_imp ?_ |>.bind closeValue_mirrors
  exact fun o h => ⟨⟨.nil, rfl⟩, h.1⟩

/-- Both read the same that follows the name of a variable. -/
theorem varTail_mirrors : Mirrors T p p P varTail varTail Same := by
  refine .test (sees_mirrors .colonEquals) (sees_looks .colonEquals).keeps (varValue_mirrors.of_imp fun _ h => h.2) ?_
  refine .test (seesWord_mirrors "external") (seesWordAt_looks 0 "external").keeps ?_
    ((reportNext_mirrors (by decide)).bind fun _ _ => .done false)
  refine takeWord_mirrors.bind fun _ _ => ?_
  exact .test (sees_mirrors .colonEquals) (sees_looks .colonEquals).keeps (varValue_mirrors.of_imp fun _ h => h.2) (.done true)

/-- Both read the same variable, of which two words are ahead. -/
theorem varDecl_mirrors : Mirrors T p True (fun o => ∀ i < 2, o.KindAt i .name) varDecl varDecl Same := by
  refine words_mirrors 1 ((accept_mirrors .dollar nofun).andThen fun _ => .ite ?_ ((report_mirrors (by decide)).bind fun _ _ => .done false))
  exact (expectQName_mirrors _).whenDone (optionalType_mirrors.whenDone varTail_mirrors)

/-- Both read the same option, of which two words are ahead. -/
theorem optionDecl_mirrors : Mirrors T p True (fun o => ∀ i < 2, o.KindAt i .name) optionDecl optionDecl Same :=
  words_mirrors 1 ((expectQName_mirrors _).whenDone (stringLiteral_mirrors _))

/-! ## Setters and imports -/

/-- Rules that both readings go alike they go alike one after the other. -/
theorem inOrder_mirrors {rules : List (Rule Bool)} (h : ∀ r ∈ rules, Mirrors T p p Anywhere r r Same) :
    Mirrors T p p P (inOrder rules) (inOrder rules) Same := by
  induction rules generalizing P with
  | nil => exact .done true
  | cons r rules ih => exact (h r (List.mem_cons_self ..)).anywhere.whenDone (ih fun s hs => h s (List.mem_cons_of_mem _ hs))

/-- Both read the same prefix and its sign. -/
theorem prefixBinding_mirrors : Mirrors T p p P prefixBinding prefixBinding Same :=
  inOrder_mirrors (by simpa using ⟨expectNCName_mirrors _, expect_mirrors .equals _ nofun⟩)

/-- Both read the same round of the locations of an import. -/
theorem locationStep_mirrors (a : Bool) : Mirrors T p p P (locationStep a) (locationStep a) Same :=
  (accept_mirrors .comma nofun).andThen fun _ => .ite ((stringLiteral_mirrors _).andThen fun _ => .ite (.done _) (.done _)) (.done _)

/-- Both read the same locations of an import. -/
theorem locationHints_mirrors : Mirrors T p p P locationHints locationHints Same := by
  refine .test (seesWord_mirrors "at") (seesWordAt_looks 0 "at").keeps ?_ (.done true)
  refine takeWord_mirrors.bind fun _ _ => (stringLiteral_mirrors _).whenDone ?_
  exact repeatRule_same (fun a => locationStep_mirrors a) true

/-- Both read the same that a schema import binds. -/
theorem schemaTarget_mirrors : Mirrors T p p P schemaTarget schemaTarget Same := by
  refine .test (seesWord_mirrors "namespace") (seesWordAt_looks 0 "namespace").keeps
    (takeWord_mirrors.bind fun _ _ => prefixBinding_mirrors) ?_
  refine .test (seesWord_mirrors "default") (seesWordAt_looks 0 "default").keeps (takeWord_mirrors.bind fun _ _ => ?_) (.done true)
  exact inOrder_mirrors (by simpa using ⟨expectWord_mirrors _, expectWord_mirrors _⟩)

/-- Both read the same that a module import binds. -/
theorem moduleTarget_mirrors : Mirrors T p p P moduleTarget moduleTarget Same :=
  .test (seesWord_mirrors "namespace") (seesWordAt_looks 0 "namespace").keeps (takeWord_mirrors.bind fun _ _ => prefixBinding_mirrors)
    (.done true)

end QueryStubs.Grammar
