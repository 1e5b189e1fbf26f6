import QueryStubs.Proofs.Recovery.Declarations

/-!
# Where declarations end

Trivia get into a node only in front of a lexeme that is taken for it, unless a node is opened for which none is taken. `Takes n P r` says
that from every cursor whose outlook satisfies `P` the rule `r` takes at least `n` lexemes, and trivia with them only. A node keeps that if
there is a lexeme in it (`Takes.node`), so each of them is opened where what is seen ahead is taken at once.

So a variable, function or option declaration ends with a token that is no trivia (`bodyDecl_ends`). For declarations of no known kind that
is not so: trivia that are all that is left become part of them.
-/

namespace QueryStubs.Grammar

open QueryStubs

namespace Outlook

variable {n m : Nat} {o o' o'' : Outlook}

/-- At least `n` lexemes were taken from one outlook to another, each with the trivia in front of it, and nothing else. -/
structure Taken (n : Nat) (o o' : Outlook) : Prop where
  tail : o'.tail = o.tail
  ahead : ∃ run, o.ahead = run ++ o'.ahead ∧ n ≤ run.length

namespace Taken

/-- Where nothing moves nothing is taken. -/
theorem refl (o : Outlook) : Taken 0 o o := ⟨rfl, [], rfl, Nat.le_refl 0⟩

/-- What is taken one after the other adds up. -/
theorem trans (h : Taken n o o') (h' : Taken m o' o'') : Taken (n + m) o o'' := by
  obtain ⟨run, hrun, hn⟩ := h.ahead
  obtain ⟨run', hrun', hm⟩ := h'.ahead
  refine ⟨h'.tail.trans h.tail, run ++ run', by rw [hrun, hrun', List.append_assoc], ?_⟩
  rw [List.length_append]
  exact Nat.add_le_add hn hm

/-- Whatever was taken is no less than nothing. -/
theorem any (h : Taken n o o') : Taken 0 o o' := by
  obtain ⟨run, hrun, -⟩ := h.ahead
  exact ⟨h.tail, run, hrun, Nat.zero_le _⟩

/-- Trivia that were placed before go with the lexeme that is taken first. -/
theorem of_placed (h : Taken (n + 1) o.placed o') : Taken (n + 1) o o' := by
  obtain ⟨run, hrun, hn⟩ := h.ahead
  obtain ⟨l', run, rfl⟩ := List.exists_cons_of_length_pos (Nat.lt_of_lt_of_le (Nat.succ_pos n) hn)
  obtain ⟨_ | ⟨l, ls⟩, tail, reached⟩ := o
  · cases hrun
  · exact ⟨h.tail, l :: run, congrArg (l :: ·) (List.cons.inj hrun).2, hn⟩

/-- Where a lexeme was taken, what is left now comes right behind a token that is no trivia. -/
theorem ends (h : Taken (n + 1) o o') (hl : o.Lexical) : ∃ ts t, o.left = ts ++ t :: o'.left ∧ t.isTrivia = false := by
  obtain ⟨run, hrun, hn⟩ := h.ahead
  obtain ⟨run, l, rfl⟩ := (List.eq_nil_or_concat run).resolve_left fun hnil => by simp [hnil] at hn
  rw [List.concat_eq_append] at hrun
  refine ⟨run.flatMap Lexeme.tokens ++ l.lead, l.token, ?_, (hl.tokens l (by simp [hrun])).1⟩
  rw [left, left, hrun, h.tail]
  simp [Lexeme.tokens]

end Taken

end Outlook

/-- From every cursor that `P` holds of the rule takes at least `n` lexemes, each with the trivia in front of it, and nothing else. -/
def Takes (n : Nat) (P : Outlook → Prop) (r : Rule α) : Prop := ∀ c : Cursor, P c.outlook → c.outlook.Taken n (r c).2.outlook

namespace Takes

variable {n m : Nat} {P P' : Outlook → Prop} {x y : Rule α} {k : α → Rule β}

/-- More may be assumed. -/
theorem of_imp (h : Takes n P x) (hP : ∀ o, P' o → P o) : Takes n P' x := fun c hp => h c (hP _ hp)

/-- It need not be said how many. -/
theorem any (h : Takes n P x) : Takes 0 P x := fun c hp => (h c hp).any

/-- What leaves the outlook as it is takes nothing. -/
theorem of_outlook (h : ∀ c, (x c).2.outlook = c.outlook) : Takes 0 P x := fun c _ => h c ▸ .refl c.outlook

/-- A rule that only answers takes nothing. -/
theorem pure (a : α) : Takes 0 P (pure a : Rule α) := of_outlook fun _ => rfl

/-- What the first of two rules takes is taken by both together. -/
theorem bind (hx : Takes n P x) (hk : ∀ a, Takes 0 (fun _ => True) (k a)) : Takes n P (x >>= k) := fun c hp =>
  (hx c hp).trans (hk _ _ trivial)

/-- Looking first takes nothing, and what was found may be counted on. -/
theorem look {A : α → Outlook → Prop} (h : Keeps x A) (hk : ∀ a, Takes n (fun o => P o ∧ A a o) (k a)) : Takes n P (x >>= k) := by
  intro c hp
  obtain ⟨hr, ha⟩ := h c
  have ho : (x c).2.outlook = c.outlook := congrArg Reading.outlook hr
  exact ho ▸ hk (x c).1 (x c).2 (ho.symm ▸ ⟨hp, ha⟩)

/-- A choice takes what both branches take. -/
theorem ite {p : Prop} [Decidable p] (hx : p → Takes n P x) (hy : ¬ p → Takes n P y) : Takes n P (if p then x else y) := by
  split
  · next h => exact hx h
  · next h => exact hy h

/-- A look decides between two rules, and where it found something that may be counted on. -/
theorem test {t : Rule Bool} {T : Outlook → Prop} (ht : Looks m t fun b o => b = true ↔ T o) (hx : Takes n T x) (hy : Takes n P y) :
    Takes n P (t >>= fun b => if b = true then x else y) :=
  .look ht.keeps fun _ => .ite (fun hb => hx.of_imp fun _ h => h.2.mp hb) fun _ => hy.of_imp fun _ h => h.1

/-- A rule and, if it was complete, another. -/
theorem andThen {x y : Rule Bool} (hx : Takes n P x) (hy : Takes 0 (fun _ => True) y) :
    Takes n P (x >>= fun b => if b = true then y else Pure.pure false) :=
  hx.bind fun _ => .ite (fun _ => hy) fun _ => .pure false

/-- Taking a lexeme takes one if one is left. -/
theorem advance {r : Rule Unit} {record : Token → Token} (hr : ∀ c, r c = ((), c.advance record)) : Takes 1 Outlook.Goes r := by
  intro c hp
  obtain ⟨l, ls, ha⟩ := List.exists_cons_of_ne_nil hp
  have ha : c.ahead = l :: ls := ha
  rw [hr, Cursor.advance, ha]
  exact ⟨rfl, [l], ha, Nat.le_refl 1⟩

/-- And where none is left, nothing is taken. -/
theorem advance_any {r : Rule Unit} {record : Token → Token} (hr : ∀ c, r c = ((), c.advance record)) : Takes 0 P r := by
  intro c _
  by_cases hp : c.outlook.Goes
  · exact (advance hr c hp).any
  · have ha : c.ahead = [] := of_not_not hp
    have hsame : (r c).2.outlook = c.outlook := by
      rw [hr, Cursor.advance, ha]
      exact congrArg Reading.outlook (demand_keeps false .pastEnd c).1
    exact hsame ▸ .refl c.outlook

/-- Whatever a rule takes it takes as a node, too. -/
theorem nodeWithLead (kind : NodeKind) (h : Takes n P x) : Takes n P (nodeWithLead kind x) := fun c hp => h (c.startNode kind) hp

/-- A node takes the trivia in front of its first lexeme, so there has to be one. -/
theorem node (kind : NodeKind) (h : Takes (n + 1) P' x) (hP : ∀ o, P o → P' o.placed) : Takes (n + 1) P (Grammar.node kind x) := by
  intro c hp
  have hplaced : c.placeTrivia.outlook = c.outlook.placed := outlook_placeTrivia c
  refine .of_placed ?_
  rw [← hplaced]
  exact h (c.placeTrivia.startNode kind) (hplaced ▸ hP _ hp)

/-- A loop takes what its first round does, and perhaps more. -/
theorem loop {step : σ → Rule (Bool × σ)} (h : ∀ a, Takes 0 (fun _ => True) (step a)) {a : σ} (hfirst : Takes n P (step a)) :
    Takes n P (repeatRule step a) := by
  have hstuck : ∀ d : Cursor, (d.demand false .stuck).outlook = d.outlook := fun d =>
    congrArg Reading.outlook (demand_keeps false .stuck d).1
  have hstep : ∀ {b r} {c d : Cursor}, step b c = (r, d) → c.outlook.Taken 0 d.outlook := by
    intro b r c d hs
    have hround := h b c trivial
    rw [hs] at hround
    exact hround
  have hall : ∀ b (c : Cursor), c.outlook.Taken 0 (repeatRule step b c).2.outlook := by
    intro b c
    fun_induction repeatRule step b c with
    | case1 b c e d hs => exact hstep hs
    | case2 b c e d hs _ ih => exact (hstep hs).trans ih
    | case3 b c e d hs _ => exact (hstuck d).symm ▸ hstep hs
  intro c hp
  have hround := hfirst c hp
  rw [repeatRule]
  split
  · next hs =>
    rw [hs] at hround
    exact hround
  · next b d hs =>
    rw [hs] at hround
    split
    · exact hround.trans (hall b d)
    · exact (hstuck d).symm ▸ hround

end Takes

section

variable {P : Outlook → Prop}

/-! ## Words, names and literals -/

/-- Where a lexeme is left, taking one takes one. -/
theorem take_takes : Takes 1 Outlook.Goes take := .advance fun _ => rfl

/-- Wherever it is, taking a lexeme takes nothing but lexemes. -/
theorem take_any : Takes 0 P take := .advance_any fun _ => rfl

/-- Where a lexeme is left, taking a keyword takes one. -/
theorem takeKeyword_takes : Takes 1 Outlook.Goes takeKeyword := .advance fun _ => rfl

/-- Wherever it is, taking a keyword takes nothing but lexemes. -/
theorem takeKeyword_any : Takes 0 P takeKeyword := .advance_any fun _ => rfl

/-- Where a lexeme is left, taking some keywords takes one. -/
theorem takeKeywords_takes (n : Nat) : Takes 1 Outlook.Goes (takeKeywords (n + 1)) := by
  have hrest : ∀ n, Takes 0 (fun _ => True) (takeKeywords n) := by
    intro n
    induction n with
    | zero => exact .pure ()
    | succ n ih => exact takeKeyword_any.bind fun _ => ih
  exact takeKeyword_takes.bind fun _ => hrest n

/-- A rule that only reports takes nothing. -/
theorem addReport_takes {r : Rule Unit} {place : Cursor → Nat} {report : Cursor → Diagnostic}
    (hr : ∀ c, (r c).2.outlook = (c.addReport (place c) (report c)).outlook) : Takes 0 P r :=
  .of_outlook fun c => (hr c).trans (addReport_frame c (place c) (report c)).1

/-- A report at the next lexeme takes nothing. -/
theorem reportNext_takes (kind : DiagnosticKind) (detail : Option String) : Takes 0 P (reportNext kind detail) :=
  .look lookPast_looks.keeps fun _ => addReport_takes fun _ => rfl

/-- What is missing is reported and left out. -/
theorem missing_takes (kind : DiagnosticKind) (detail : Option String) :
    Takes 0 P (reportNext kind detail >>= fun _ => pure false) := (reportNext_takes kind detail).bind fun _ => .pure false

/-- A report of something that is not closed takes nothing. -/
theorem reportUnclosed_takes (kind : DiagnosticKind) (note : String) (opening : Span) : Takes 0 P (reportUnclosed kind note opening) := by
  refine .of_outlook fun c => ?_
  have hrun : (reportUnclosed kind note opening c).2 = (c.look.demand (decide (opening.start ≤ c.nextSpan.stop)) .reversedSpan).addReport
      c.nextSpan.start ⟨kind, ⟨opening.start, c.nextSpan.stop⟩, none, [⟨note, opening⟩]⟩ := rfl
  rw [hrun, (addReport_frame _ _ _).1]
  exact congrArg Reading.outlook (demand_keeps _ _ c.look).1

/-- Accepting a lexeme takes nothing but lexemes. -/
theorem accept_takes (kind : TokenKind) : Takes 0 P (accept kind) :=
  .test (sees_looks kind) (take_any.bind fun _ => .pure true) (.pure false)

/-- Expecting a lexeme takes nothing but lexemes. -/
theorem expect_takes (kind : TokenKind) (what : String) : Takes 0 P (expect kind what) :=
  (accept_takes kind).bind fun _ => .ite (fun _ => .pure true) fun _ => missing_takes _ _

/-- Where a lexeme is left, a name takes one. -/
theorem qname_takes : Takes 1 Outlook.Goes qname := by
  have hinside : Takes 1 Outlook.Goes (do take; if ← seesTouching 0 .colon then if ← seesTouching 1 .name then take; take) := by
    refine take_takes.bind fun _ => .test (seesTouching_looks 0 .colon) ?_ (.pure ())
    exact .test (seesTouching_looks 1 .name) (take_any.bind fun _ => take_any) (.pure ())
  refine .look (sees_looks .name).keeps fun _ => .look (demand_keeps _ _) fun _ => ?_
  exact (Takes.node .qname hinside fun _ h => h.placed).of_imp fun _ h => h.1.1

/-- Expecting a name takes nothing but lexemes. -/
theorem expectQName_takes (what : String) : Takes 0 P (expectQName what) := by
  refine .test (sees_looks .name) (Takes.bind ?_ fun _ => .pure true) (missing_takes _ _)
  exact qname_takes.any.of_imp fun _ h => h.goes

/-- The end of a literal takes nothing but lexemes. -/
theorem literalEnd_takes (opening : Option TokenKind) : Takes 0 P (literalEnd opening) :=
  .look (peekRaw_looks 0).keeps fun _ => .look (demand_keeps _ _) fun _ => take_any

/-- Where a lexeme is left, the tokens of a literal take one. -/
theorem literalTokens_takes : Takes 1 Outlook.Goes literalTokens := by
  refine .look nextKind_looks.keeps fun opening => (take_takes.of_imp fun _ h => h.1).bind fun _ => ?_
  exact .test (seesTouching_looks 0 .literalText) (take_any.bind fun _ => literalEnd_takes opening) (literalEnd_takes opening)

/-- A string literal takes nothing but lexemes. -/
theorem stringLiteral_takes (what : String) : Takes 0 P (stringLiteral what) := by
  refine .look nextKind_looks.keeps fun kind => .ite (fun hquote => ?_) fun _ => missing_takes _ _
  have hgoes : ∀ o : Outlook, P o ∧ kind = o.ahead[0]?.map (·.kind) → o.Goes := fun o h hn => by simp [h.2, hn] at hquote
  exact ((Takes.node .str literalTokens_takes fun _ h => h.placed).any.of_imp hgoes).bind fun _ => .pure true

/-- Trivia in front of what comes next do not decide whether to skip it. -/
theorem Outlook.stops_placed {o : Outlook} : o.placed.Stops ↔ o.Stops := by
  rw [Stops, Stops, declAhead_placed]
  obtain ⟨_ | ⟨l, ls⟩, tail, reached⟩ := o <;> rfl

/-- There is only a node for what is skipped if a lexeme is. -/
theorem skipToRecovery_takes : Takes 0 P (skipUntil atRecovery) := by
  have hgoes : Takes 0 (fun _ => True) (lookPast >>= fun _ => pure (true, ())) := .look lookPast_looks.keeps fun _ => .pure _
  have hany : ∀ a, Takes 0 (fun _ => True) (skipStep atRecovery a) := fun _ =>
    .look atEnd_looks.keeps fun _ => .ite (fun _ => .pure _) fun _ =>
      .look atRecovery_keeps fun _ => .ite (fun _ => .pure _) fun _ => take_any.bind fun _ => hgoes
  have hfirst : Takes 1 (fun o => o.Goes ∧ ¬ o.Stops) (skipStep atRecovery ()) := by
    refine .look atEnd_looks.keeps fun _ => .ite (fun hempty _ h => absurd (h.2.mp hempty) h.1.1) fun _ => ?_
    refine .look atRecovery_keeps fun _ => .ite (fun hstop _ h => absurd (h.2.mp hstop) h.1.1.2) fun _ => ?_
    exact (take_takes.of_imp fun _ h => h.1.1.1).bind fun _ => hgoes
  refine .look atEnd_looks.keeps fun _ => .ite (fun _ => .pure ()) fun hempty => ?_
  refine .look atRecovery_keeps fun _ => .ite (fun _ => .pure ()) fun hstop => ?_
  have hnode : Takes 1 (fun o => o.Goes ∧ ¬ o.Stops) (node .error (repeatRule (skipStep atRecovery) ())) :=
    .node .error (.loop hany hfirst) fun _ h => ⟨h.1.placed, mt Outlook.stops_placed.mp h.2⟩
  exact hnode.any.of_imp fun _ h => ⟨mt h.1.2.mpr hempty, mt h.2.mpr hstop⟩

/-! ## Sequence types -/

/-- A bracketed region takes what its opening bracket does. -/
theorem balanced_takes {n : Nat} (htake : Takes n P take) (openKind closeKind : TokenKind) (unclosed : DiagnosticKind) (note : String) :
    Takes n P (balanced openKind closeKind unclosed note) := by
  refine .look nextSpan_looks.keeps fun opening => (htake.of_imp fun _ h => h.1).bind fun _ => ?_
  have hstep : ∀ depth, Takes 0 (fun _ => True) (balancedStep openKind closeKind unclosed note opening depth) := by
    intro depth
    refine .look nextKind_looks.keeps fun kind => .test atEnd_looks ?_ (take_any.bind fun _ => ?_)
    · exact (reportUnclosed_takes _ _ _).bind fun _ => .pure _
    · exact .ite (fun _ => .pure _) fun _ => .ite (fun _ => .pure _) fun _ => .pure _
  exact (Takes.loop hstep (hstep 1)).bind fun _ => .pure _

/-- A node that is opened where a lexeme comes next, which it takes first. -/
theorem node_takes {kind : NodeKind} {x : Rule α} (h : Takes 1 Outlook.Goes x) : Takes 1 Outlook.Goes (node kind x) :=
  .node kind h fun _ h => h.placed

/-- A mark of occurrence takes nothing but lexemes. -/
theorem occurrenceMark_takes : Takes 0 P occurrenceMark := by
  refine .look nextKind_looks.keeps fun kind => .ite (fun hmark => ?_) fun _ => .pure ()
  exact (node_takes take_takes).any.of_imp fun o h hn => by simp [h.2, hn] at hmark

/-- Where a lexeme is left, a type with nothing in its parentheses takes one. -/
theorem emptyParens_takes (kind : NodeKind) : Takes 1 Outlook.Goes (emptyParens kind) := by
  refine node_takes (takeKeyword_takes.bind fun _ => .look (sees_looks .parenOpen).keeps fun _ => .look (demand_keeps _ _) fun _ => ?_)
  exact take_any.bind fun _ => expect_takes _ _

/-- Where a lexeme is left, a kind test takes one. -/
theorem kindTest_takes : Takes 1 Outlook.Goes kindTest :=
  node_takes (takeKeyword_takes.bind fun _ => balanced_takes take_any _ _ _ _)

/-- A test and then, if it is complete, the mark after it. -/
theorem marked_takes {r : Rule Bool} (h : Takes 0 P r) :
    Takes 0 P (r >>= fun b => if b = true then occurrenceMark >>= fun _ => pure true else pure false) :=
  h.andThen (occurrenceMark_takes.bind fun _ => .pure true)

/-- A type that starts with a word and a parenthesis takes nothing but lexemes. -/
theorem testType_takes (name : String) : Takes 0 Outlook.Goes (testType name) := by
  have hparens : ∀ kind, Takes 0 Outlook.Goes (emptyParens kind) := fun kind => (emptyParens_takes kind).any
  unfold testType
  split
  · exact hparens _
  split
  · exact marked_takes (hparens _)
  split
  · exact marked_takes kindTest_takes.any
  · exact missing_takes _ _

/-- An atomic type takes nothing but lexemes. -/
theorem atomicType_takes : Takes 0 Outlook.Goes atomicType :=
  (node_takes qname_takes).any.bind fun _ => occurrenceMark_takes.bind fun _ => .pure true

/-- An item type takes nothing but lexemes. -/
theorem itemType_takes : Takes 0 P itemType := by
  refine .test (sees_looks .name) (.of_imp (P := Outlook.Goes) ?_ fun _ h => h.goes) (missing_takes _ _)
  refine .look nextText_looks.keeps fun name => .test (seesTouching_looks 1 .colon) (atomicType_takes.of_imp fun _ h => h.goes) ?_
  exact .test (seesAt_looks 1 .parenOpen) ((testType_takes name).of_imp fun _ h => h.goes) (atomicType_takes.of_imp fun _ h => h.1)

/-- A type that may be left out takes nothing but lexemes. -/
theorem optionalType_takes : Takes 0 P optionalType := by
  refine .test (seesWordAt_looks 0 "as") (.of_imp (P := Outlook.Goes) ?_ fun _ h => h.goes) (.pure true)
  exact (node_takes (takeKeyword_takes.bind fun _ => itemType_takes.nodeWithLead _)).any

/-! ## Functions, variables and options -/

/-- Checking the namespace of a function takes nothing. -/
theorem checkNamespace_takes : Takes 0 P checkNamespace := by
  refine .test (sees_looks .name) ?_ (.pure ())
  refine .look nextSpan_looks.keeps fun span => .look upcomingPrefix_looks.keeps fun found => .look get_looks.keeps fun _ => ?_
  exact .ite (fun _ => addReport_takes fun _ => rfl) fun _ => .pure ()

/-- Where a lexeme is left, a parameter takes one. -/
theorem param_takes : Takes 1 Outlook.Goes param :=
  node_takes (take_takes.bind fun _ => (expectQName_takes _).andThen optionalType_takes)

/-- A round of the parameters takes nothing but lexemes. -/
theorem paramStep_takes (a : Bool) : Takes 0 P (paramStep a) := by
  refine .test (sees_looks .dollar) ?_ ((reportNext_takes _ _).bind fun _ => .pure _)
  refine (param_takes.any.of_imp fun _ h => h.goes).bind fun _ => .ite (fun _ => ?_) fun _ => .pure _
  exact (accept_takes .comma).bind fun _ => .pure _

/-- Closing the parameters takes nothing but lexemes. -/
theorem closeParams_takes (opening : Span) : Takes 0 P (closeParams opening) := by
  refine (accept_takes .parenClose).bind fun _ => .ite (fun _ => .pure true) fun _ => .test atEnd_looks ?_ (missing_takes _ _)
  exact (reportUnclosed_takes _ _ _).bind fun _ => .pure false

/-- Where a lexeme is left, a list of parameters takes one. -/
theorem paramList_takes : Takes 1 Outlook.Goes paramList := by
  refine node_takes (.look nextSpan_looks.keeps fun opening => (take_takes.of_imp fun _ h => h.1).bind fun _ => ?_)
  refine .test (sees_looks .parenClose) (closeParams_takes opening) ?_
  exact (Takes.loop paramStep_takes (paramStep_takes true)).andThen (closeParams_takes opening)

/-- The body of a function takes nothing but lexemes. -/
theorem functionBody_takes : Takes 0 P functionBody := by
  refine .test (sees_looks .braceOpen) ((node_takes (balanced_takes take_takes _ _ _ _)).any.of_imp fun _ h => h.goes) ?_
  refine .test (seesWordAt_looks 0 "external") (.bind ?_ fun _ => .pure true) (missing_takes _ _)
  exact (node_takes takeKeyword_takes).any.of_imp fun _ h => h.goes

/-- What follows the words of a function takes nothing but lexemes. -/
theorem functionTail_takes : Takes 0 P functionTail := by
  refine .test (sees_looks .parenOpen) (.andThen ?_ (optionalType_takes.andThen functionBody_takes)) (missing_takes _ _)
  exact paramList_takes.any.of_imp fun _ h => h.goes

/-- Where a lexeme is left, the value of a variable takes one. -/
theorem varValue_takes : Takes 1 Outlook.Goes varValue := by
  have hstep : ∀ b, Takes 0 (fun _ => True) (valueStep b) := by
    refine fun b => .look nextKind_looks.keeps fun kind => ?_
    cases kind with
    | none => exact .pure _
    | some kind => exact .ite (fun _ => .pure _) fun _ => .look nextSpan_looks.keeps fun _ => take_any.bind fun _ => .pure _
  refine node_takes (take_takes.bind fun _ => (Takes.loop hstep (hstep {})).bind fun b => ?_)
  unfold closeValue
  split
  · exact (reportUnclosed_takes _ _ _).bind fun _ => .pure false
  · exact .ite (fun _ => missing_takes _ _) fun _ => .pure true

/-- What follows the name of a variable takes nothing but lexemes. -/
theorem varTail_takes : Takes 0 P varTail := by
  have hvalue : Takes 0 (Outlook.KindAt 0 .colonEquals) varValue := varValue_takes.any.of_imp fun _ h => h.goes
  refine .test (sees_looks .colonEquals) hvalue (.test (seesWordAt_looks 0 "external") ?_ (missing_takes _ _))
  exact takeKeyword_any.bind fun _ => .test (sees_looks .colonEquals) hvalue (.pure true)

/-- The rule for a variable, function or option declaration takes its words first. -/
theorem bodyDecl_takes {kind : NodeKind} (hk : kind.isBodyDecl = true) : Takes 1 Outlook.Goes (declBody kind) := by
  have hwords : ∀ {r : Rule Bool}, Takes 0 (fun _ => True) r → Takes 1 Outlook.Goes (takeKeywords 2 >>= fun _ => r) :=
    fun h => (takeKeywords_takes 1).bind fun _ => h
  match kind, hk with
  | .varDecl, _ =>
    refine hwords ((accept_takes .dollar).bind fun _ => .ite (fun _ => ?_) fun _ => missing_takes _ _)
    exact (expectQName_takes _).andThen (optionalType_takes.andThen varTail_takes)
  | .functionDecl, _ => exact hwords (checkNamespace_takes.bind fun _ => (expectQName_takes _).andThen functionTail_takes)
  | .optionDecl, _ => exact hwords ((expectQName_takes _).andThen (stringLiteral_takes _))

/-- So does the declaration, whatever is skipped at its end. -/
theorem declaration_takes (kind : NodeKind) {r : Rule Bool} (h : Takes 1 Outlook.Goes r) : Takes 1 Outlook.Goes (declaration kind r) := by
  rw [declaration_eq]
  have hend : Takes 1 Outlook.Goes (toSemicolon r) := by
    refine h.bind fun _ => .ite (fun _ => .test (sees_looks .semicolon) (.pure ()) ?_) fun _ => skipToRecovery_takes
    exact (reportNext_takes _ _).bind fun _ => skipToRecovery_takes
  exact node_takes (hend.bind fun _ => accept_takes .semicolon)

end

/-- The tokens of a variable, function or option declaration end with one that is no trivia. -/
theorem bodyDecl_ends {kind : NodeKind} (hk : kind.isBodyDecl = true) {c : Cursor} (hl : c.outlook.Lexical) (hgoes : c.ahead ≠ [])
    {w us : List Token} (hleft : c.left = w ++ (us ++ (declaration kind (declBody kind) c).2.left)) (hus : us ≠ []) :
    ∃ ts t, us = ts ++ [t] ∧ t.isTrivia = false := by
  obtain ⟨before, u, hlast⟩ := (List.eq_nil_or_concat us).resolve_left hus
  obtain ⟨taken, t, htaken, ht⟩ := (declaration_takes kind (bodyDecl_takes hk) c hgoes).ends hl
  generalize hleft' : (declaration kind (declBody kind) c).2.left = left at hleft
  have hboth : w ++ (us ++ left) = taken ++ t :: left := hleft.symm.trans (hleft' ▸ htaken)
  have hsame : (w ++ before) ++ [u] = taken ++ [t] := by
    refine List.append_cancel_right (?_ : _ ++ left = _ ++ left)
    simpa [hlast] using hboth
  obtain rfl := List.singleton_inj.mp (List.append_inj' hsame rfl).2
  exact ⟨before, u, hlast.trans List.concat_eq_append, ht⟩

end QueryStubs.Grammar
