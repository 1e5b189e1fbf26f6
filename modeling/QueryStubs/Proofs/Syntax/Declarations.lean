import QueryStubs.Proofs.Reader.Whole
import QueryStubs.Proofs.Syntax.Types

/-!
# Reading declarations

Lists of parameters and of places are loops that take a lexeme in every round; `Reads.loop` is the induction over what is left. A
function outside the namespace of its module is only warned about, right before its name is read: the name is read all the same, and
the next report is made behind it (`Reads.warned`).
-/

namespace QueryStubs.Grammar

open QueryStubs

/-! ## Loops -/

/-- What a form is built of is not put back. -/
theorem Form.Builds.length_le {f : Form} {o o' : Outlook} {ts : List Tree} (h : f.Builds o ts o') :
    o'.ahead.length ≤ o.ahead.length := by
  induction h with
  | nothing | manyNil => exact Nat.le_refl _
  | one | keyword => exact Nat.le_succ _
  | prefixed => exact Nat.le_add_right _ 3
  | run => simp
  | seq _ _ ih ih' | manyCons _ _ ih ih' => exact Nat.le_trans ih' ih
  | first _ ih | second _ ih | leadNode _ ih | guard _ _ ih => exact ih
  | node _ ih => exact Nat.le_trans ih (Nat.le_of_eq (Outlook.length_placed _))
  | trivia => exact Nat.le_of_eq (Outlook.length_placed _)

/-- A lexeme is used up. -/
theorem Form.Builds.length_lt {p : TokenKind → Bool} {o o' : Outlook} {ts : List Tree} (h : (Form.one p).Builds o ts o') :
    o'.ahead.length < o.ahead.length := by
  cases h
  exact Nat.lt_succ_self _

/-- A loop reads what one round and the loop after it read, if the round takes a lexeme whenever it is to go on. -/
theorem Reads.loop {S : Prop} {F : Option Token → Prop} {step : σ → Rule (Bool × σ)} {L : σ → Form} {Q : σ → Outlook → Prop}
    {good : σ → Bool} (hs : ∀ a, Stays (step a))
    (h : ∀ a n (again : σ → Rule σ), (∀ b, Reads S (fun o => Q b o ∧ o.ahead.length < n) (again b) good (L b) F) →
      Reads S (fun o => Q a o ∧ o.ahead.length = n) (step a >>= fun r => if r.1 = true then again r.2 else Pure.pure r.2) good
        (L a) F) (a : σ) : Reads S (Q a) (repeatRule step a) good (L a) F := by
  refine .of_length fun n => ?_
  induction n using Nat.strongRecOn generalizing a with
  | ind n ih =>
    have hbehind : ∀ b, Reads S (fun o => Q b o ∧ o.ahead.length < n) (loopBehind step n b) good (L b) F := by
      intro b
      have hloop : Reads S (fun o => Q b o ∧ o.ahead.length < n) (repeatRule step b) good (L b) F :=
        ⟨Stays.repeatRule hs b, fun c hc hp => (ih _ hp.2 b).sound c hc ⟨hp.1, rfl⟩,
          fun c ts o hc hp => (ih _ hp.2 b).complete c ts o hc ⟨hp.1, rfl⟩⟩
      exact hloop.of_agree (loopBehind_stays hs n b) fun c hp => if_pos hp.2
    refine (h a n _ hbehind).of_agree (Stays.repeatRule hs a) fun c hp => ?_
    have hn : c.ahead.length = n := hp.2
    rw [repeatRule_round, hn]

/-- A form repeated behind a separator is left out, or it follows once and is repeated then. -/
theorem Form.many_iff {f g : Form} {o o' : Outlook} {ts : List Tree} :
    (Form.optional (.seq g (.seq f (.many (.seq g f))))).Builds o ts o' ↔ (Form.many (.seq g f)).Builds o ts o' := by
  constructor
  · intro h
    cases h with
    | first h =>
      cases h with
      | seq hg h =>
        cases h with
        | seq hf h =>
          rw [← List.append_assoc]
          exact .manyCons (.seq hg hf) h
    | second h =>
      cases h
      exact .manyNil _
  · intro h
    cases h with
    | manyNil => exact .second (.nothing _)
    | manyCons h hrest =>
      cases h with
      | seq hg hf =>
        rw [List.append_assoc]
        exact .first (.seq hg (.seq hf hrest))

/-! ## Warnings -/

/-- From every cursor with some outlook the rule moves past the same lexemes, of which there is one at least, whatever was reported. -/
def Moves (P : Outlook → Prop) (r : Rule α) : Prop :=
  ∀ o, P o → ∃ a ts run ls, o.ahead = run ++ ls ∧ run ≠ [] ∧
    ∀ c : Cursor, c.outlook = o → (r c).1 = a ∧ (r c).2.toReading = c.toReading.past ts run ls

/-- A reading after some more reports, of which the last counts as made at a place. -/
def Reading.reporting (s : Reading) (ws : List Diagnostic) (last : Option Nat) : Reading :=
  { s with reports := s.reports ++ ws, lastReport := last }

/-- The rule makes no report but warnings at the next lexeme. -/
def Warns (P : Outlook → Prop) (x : Rule Unit) : Prop :=
  ∀ c : Cursor, P c.outlook → ∃ ws last, (x c).2.toReading = c.toReading.reporting ws last ∧
    (∀ r ∈ ws, r.isError = false) ∧ (last = c.lastReport ∨ last = some c.nextPlace)

/-- Warnings at a lexeme that is taken do not matter to what is read. -/
theorem Reads.warned {S : Prop} {P : Outlook → Prop} {F : Option Token → Prop} {f : Form} {good : α → Bool} {x : Rule Unit}
    {y : Rule α} (hS : ¬ S) (hx : Warns P x) (hs : Stays x) (hm : Moves P y) (hy : Reads S P y good f F) :
    Reads S P (x >>= fun _ => y) good f F := by
  have hfaultless : ∀ (c : Cursor) ws last, c.Clean → (∀ r ∈ ws, r.isError = false) →
      ¬ (c.toReading.reporting ws last).HasError := by
    rintro c ws last hc hws ⟨r, hr, he⟩
    rcases List.mem_append.mp hr with hr | hr
    · exact hc.faultless ⟨r, hr, he⟩
    · rw [hws r hr] at he
      cases he
  refine ⟨hs.bind fun _ => hy.stays, fun c hc hp => .inr ?_, fun c us o hc hp hb ho => ?_⟩
  · obtain ⟨ws, last, hd, hws, hlast⟩ := hx c hp
    -- The rule moves past the same lexemes with the warnings and without them, where it is known what it builds.
    obtain ⟨a, ts, run, ls, ha, hne, hrun⟩ := hm c.outlook hp
    obtain ⟨hga, hpast⟩ := hrun c rfl
    obtain ⟨hga', hpast'⟩ := hrun (x c).2 ((congrArg Reading.outlook hd).trans rfl)
    have hne' : ¬ (y c).2.HasError := by
      rw [hpast]
      exact hc.faultless
    obtain ⟨hg, vs, hgrows⟩ := (hy.sound c hc hp).resolve_left hne'
    have hvs : vs = ts := by
      have := hgrows.parts
      rw [hpast] at this
      exact (List.append_cancel_left this).symm
    subst hvs
    rw [bind_run, hga', ← hga, hpast', hd]
    refine ⟨hg, vs, ⟨?_, ?_, ?_, ?_⟩, ?_, rfl, fun h => absurd h hS⟩
    · have ho := hgrows.clean.ordered
      rw [hpast] at ho
      exact ho
    · have hal := hgrows.clean.aligned
      rw [hpast] at hal
      exact hal
    · exact hfaultless c ws last hc hws
    · intro p h
      obtain ⟨l, run, rfl⟩ := List.exists_cons_of_ne_nil hne
      have hlt := Reading.nextPlace_past hc.ordered vs ha
      rcases hlast with rfl | rfl
      · exact Nat.lt_trans (hc.last p h) hlt
      · exact Option.some.inj h ▸ hlt
    · have hb := hgrows.builds
      rw [hpast] at hb
      exact hb
  · obtain ⟨ws, last, hd, hws, -⟩ := hx c hp
    obtain ⟨a, ts, run, ls, ha, hne, hrun⟩ := hm c.outlook hp
    obtain ⟨-, hpast⟩ := hrun c rfl
    obtain ⟨-, hpast'⟩ := hrun (x c).2 ((congrArg Reading.outlook hd).trans rfl)
    obtain ⟨-, hoe, hpe⟩ := hy.complete c us o hc hp hb ho
    rw [hpast] at hoe hpe
    rw [bind_run, hpast', hd]
    exact ⟨hfaultless c ws last hc hws, hoe, hpe⟩

/-- A rule in a node moves past what it moves past, the trivia in front of the node placed. -/
theorem Moves.node {P Q : Outlook → Prop} {r : Rule α} (kind : NodeKind) (h : Moves Q r) (hP : ∀ o, P o → Q o.placed) :
    Moves P (Grammar.node kind r) := by
  intro o hp
  obtain ⟨a, ts, run, ls, ha, hne, hrun⟩ := h o.placed (hP o hp)
  obtain ⟨k, run, rfl⟩ := List.exists_cons_of_ne_nil hne
  obtain ⟨_ | ⟨l, ahead⟩, tail, reached⟩ := o
  · cases ha
  injection ha with hk ha
  subst hk ha
  refine ⟨a, leavesFor l.lead ++ [.node kind ts], l :: run, ls, rfl, List.cons_ne_nil _ _, fun c hc => ?_⟩
  have hplaced : Reading.outlook { c.placeTrivia.toReading with parts := [] } = Outlook.placed ⟨l :: (run ++ ls), tail, reached⟩ :=
    (outlook_placeTrivia c).trans (congrArg Outlook.placed hc)
  obtain ⟨hga, hpast⟩ := hrun (c.placeTrivia.startNode kind) hplaced
  have hahead : c.ahead = l :: (run ++ ls) := congrArg Outlook.ahead hc
  have he : (Grammar.node kind r c).2.toReading = { (r (c.placeTrivia.startNode kind)).2.toReading with
      parts := c.placeTrivia.parts ++ [.node kind (r (c.placeTrivia.startNode kind)).2.parts] } := rfl
  refine ⟨hga, ?_⟩
  rw [he, hpast]
  simp [Reading.past, Cursor.placeTrivia, Cursor.nextTrivia, hahead, reachedBy, Lexeme.bare, leavesFor]

/-- A name moves past itself, and past a colon and a second name if both touch. -/
theorem qnameInside_moves : Moves (fun o => IsKind .name o.head) (take >>= fun _ => qnameRest) := by
  intro o h
  obtain ⟨l, ls, ha, hk⟩ := h.lexeme
  obtain ⟨ahead, tail, reached⟩ := o
  subst ha
  by_cases hs : Outlook.Suffixed ⟨ls, tail, l.span.stop⟩
  · obtain ⟨k, m, ms, rfl, -⟩ := hs.cons
    refine ⟨(), leavesFor l.lead ++ [.leaf l.token, .leaf k.token, .leaf m.token], [l, k, m], ms, rfl, List.cons_ne_nil _ _, fun c hc => ⟨rfl, ?_⟩⟩
    rcases qnameInside_past (congrArg Outlook.ahead hc) with ⟨k', m', ms', hkm, -, -, hpast⟩ | ⟨hn, -⟩
    · cases hkm
      exact hpast
    · exact absurd (show c.tail = tail from congrArg Outlook.tail hc) fun ht => hn (ht ▸ hs)
  · refine ⟨(), leavesFor l.lead ++ [.leaf l.token], [l], ls, rfl, List.cons_ne_nil _ _, fun c hc => ⟨rfl, ?_⟩⟩
    rcases qnameInside_past (congrArg Outlook.ahead hc) with ⟨k, m, ms, rfl, ⟨hkk, hkl⟩, ⟨hmk, hml⟩, -⟩ | ⟨-, hpast⟩
    · exact absurd ⟨by simp [Outlook.TouchingAt, hkk, hkl, Lexeme.touches], by simp [Outlook.TouchingAt, hmk, hml, Lexeme.touches]⟩ hs
    · exact hpast

/-- A name that is there is read, whatever was reported. -/
theorem expectQName_moves (what : String) : Moves (fun o => IsKind .name o.head) (expectQName what) := by
  intro o h
  obtain ⟨a, ts, run, ls, ha, hne, hrun⟩ := qnameInside_moves.node .qname (fun _ h => (Outlook.head_placed _).symm ▸ h) o h
  refine ⟨true, ts, run, ls, ha, hne, fun c hc => ?_⟩
  rw [← hc] at h
  unfold expectQName
  obtain ⟨b, d, he, hd, hb⟩ := (sees_head .name).peel (c := c) rfl _
  rw [he]
  obtain rfl : b = true := hb.mpr h
  obtain ⟨b, d, he, hd, -⟩ := (sees_head .name).peel hd fun b => demand b .unexpectedKind >>= fun _ =>
    Grammar.node .qname (take >>= fun _ => qnameRest)
  obtain ⟨-, d, he', hd, -⟩ := (demand_keeps _ .unexpectedKind).peel hd fun _ => Grammar.node .qname (take >>= fun _ => qnameRest)
  refine ⟨rfl, ?_⟩
  have hpast := (hrun d ((congrArg Reading.outlook hd).trans hc)).2
  rw [hd] at hpast
  exact (congrArg (fun r => r.2.toReading) (he.trans he')).trans hpast

/-- The warning about a function whose name comes next. -/
def namespaceWarning : Rule Unit := do
  let span ← nextSpan
  let found ← upcomingPrefix
  let bound := (← get).modulePrefix
  if bound.isSome && found ≠ bound then
    reportAt .functionOutsideModuleNamespace span found []

/-- Checking the namespace of a function reports a warning or nothing. -/
theorem namespaceWarning_warns : Warns (fun o => IsKind .name o.head) namespaceWarning := by
  intro c h
  obtain ⟨l, ls, ha, -⟩ := IsKind.outlook_eq h
  unfold namespaceWarning
  obtain ⟨span, d, he, hd, hspan⟩ := nextSpan_looks.keeps.peel (c := c) rfl _
  rw [he]
  obtain ⟨found, d, he, hd, -⟩ := upcomingPrefix_looks.keeps.peel hd _
  rw [he]
  have hspan : span.start = c.nextPlace := by
    rw [hspan l ls ha, Reading.nextPlace, ha]
  obtain ⟨e, d, he, hd, -⟩ := get_looks.keeps.peel hd fun e : Cursor => if e.modulePrefix.isSome && found ≠ e.modulePrefix then
    reportAt .functionOutsideModuleNamespace span found [] else pure ()
  have hkept : ∃ ws last, d.toReading = c.toReading.reporting ws last ∧ (∀ r ∈ ws, r.isError = false) ∧
      (last = c.lastReport ∨ last = some c.nextPlace) :=
    ⟨[], c.lastReport, hd.trans (by simp [Reading.reporting]), fun _ hr => absurd hr List.not_mem_nil, .inl rfl⟩
  refine (congrArg (fun r => ∃ ws last, r.2.toReading = c.toReading.reporting ws last ∧ (∀ r ∈ ws, r.isError = false) ∧
    (last = c.lastReport ∨ last = some c.nextPlace)) he).mpr ?_
  split
  · change ∃ ws last, (d.addReport span.start _).toReading = _ ∧ _
    unfold Cursor.addReport
    split
    · exact hkept
    · refine ⟨[⟨.functionOutsideModuleNamespace, span, found, []⟩], some c.nextPlace, ?_, fun r hr => ?_, .inr rfl⟩
      · change ({ d.toReading with lastReport := _, reports := _ } : Reading) = _
        rw [hd, hspan]
        rfl
      · rw [List.mem_singleton.mp hr]
        rfl
  · exact hkept

/-- Looking for a warning changes nothing else. -/
theorem namespaceWarning_stays : Stays namespaceWarning := by
  refine nextSpan_looks.keeps.stays.bind fun span => upcomingPrefix_looks.keeps.stays.bind fun found =>
    Stays.bind get_looks.keeps.stays fun e => ?_
  intro c h
  dsimp only
  split
  · exact addReport_hasError _ _ h
  · exact h

/-- The name of a function is read whether it is warned about or not. -/
theorem checkedName_reads {S : Prop} {P : Outlook → Prop} (hS : ¬ S) (what : String) :
    Reads S P (checkNamespace >>= fun _ => expectQName what) id .qname NoColon := by
  have he : (checkNamespace >>= fun _ => expectQName what) = (sees .name >>= fun b => if b = true then
      namespaceWarning >>= fun _ => expectQName what else expectQName what) := by
    refine (bind_assoc _ _ _).trans (congrArg _ (funext fun b => ?_))
    cases b <;> rfl
  rw [he]
  refine .look (sees_head .name) fun b => .ite (fun hb => ?_) fun _ => expectQName_reads what
  exact (Reads.warned hS namespaceWarning_warns namespaceWarning_stays (expectQName_moves what) (expectQName_reads what)).of_imp
    fun o h => h.2.mp hb

/-! ## Functions -/

section

variable {S : Prop} {P : Outlook → Prop} {F : Option Token → Prop}

/-- Marks other than those that go on with a type end it. -/
theorem IsKind.endsTyped {kind : TokenKind} {t : Option Token} (h : IsKind kind t) (hm : kind.isOccurrence = false)
    (hc : kind ≠ .colon) (hp : kind ≠ .parenOpen) (hn : kind ≠ .name) : EndsTyped t := by
  refine ⟨⟨?_, h.ne hc, h.ne hp⟩, fun hw => h.ne hn hw.isKind⟩
  rintro ⟨u, rfl, hk⟩
  rw [isKind_some.mp h, hm] at hk
  cases hk

/-- So do words other than `as`. -/
theorem IsWord.endsTyped {word : String} {t : Option Token} (h : IsWord word t) (hn : word ≠ "as") : EndsTyped t := by
  refine ⟨⟨?_, h.isKind.ne (by decide), h.isKind.ne (by decide)⟩, fun hw => hn (h.unique hw)⟩
  rintro ⟨u, rfl, hk⟩
  rw [(isWord_some.mp h).1] at hk
  cases hk

/-- A type declaration, or what may follow it, does not start with a colon. -/
theorem typed_leads : (Form.optional .typeDecl).Leads EndsTyped NoColon :=
  .either (typeDecl_leads.imp fun _ h => h.isKind.ne (by decide)) (.nothing fun _ h => h.1.2.1)

/-- A parameter is read as one where its type cannot go on. -/
theorem param_reads : Reads S (fun o => IsKind .dollar o.head) param id .param EndsTyped := by
  refine .node .param (Q := fun o => True ∧ IsKind .dollar o.head) ?_ fun o h => ⟨trivial, o.head_placed ▸ h⟩
  exact .andNext (Q := fun _ => True) (F := fun _ => True) (.takeMark rfl) (fun _ _ _ _ _ => trivial)
    (.andThen (expectQName_reads _) optionalType_reads typed_leads) (.any _)

/-- A parameter starts with a dollar sign. -/
theorem param_leads : Form.param.Leads F (IsKind .dollar) :=
  .node (.seq mark_leads (.any _))

/-- An error stays reported through a round of the parameters. -/
theorem paramStep_stays (a : Bool) : Stays (paramStep a) := by
  refine (sees_head .dollar).stays.bind fun b => ?_
  cases b with
  | false => exact (Fails.reportNext (P := fun _ => True) _ rfl).stays.bind fun _ _ h => h
  | true =>
    refine (param_reads (S := True)).stays.bind fun ok => ?_
    cases ok with
    | false => exact fun _ h => h
    | true => exact Stays.bind (accept_stays .comma) fun _ _ h => h

/-- A round of the loop, and what comes after it. -/
theorem paramStep_bind (a : Bool) (again : Bool → Rule Bool) :
    (paramStep a >>= fun r => if r.1 = true then again r.2 else pure r.2) = (sees .dollar >>= fun b => if b = true then
      param >>= fun ok => if ok = true then sees .comma >>= fun c => if c = true then take >>= fun _ => again true else pure true
        else pure false
      else report .expectedVariable "parameter `$name`" >>= fun _ => pure false) := by
  unfold paramStep
  rw [bind_assoc]
  refine congrArg _ (funext fun b => ?_)
  cases b with
  | false => rfl
  | true =>
    refine (bind_assoc _ _ _).trans (congrArg _ (funext fun ok => ?_))
    cases ok with
    | false => rfl
    | true => exact (bind_assoc _ _ _).trans (accept_bind .comma fun c => if c = true then again true else pure true)

/-- What may follow a parameter that no other follows. -/
def EndsParams (t : Option Token) : Prop := EndsTyped t ∧ ¬ IsKind .comma t

/-- Parameters are read as a list of them up to what ends it. -/
theorem params_reads : Reads S (fun _ => True) (repeatRule paramStep true) id (.listOf .param) EndsParams := by
  refine .loop (L := fun _ => .listOf .param) (Q := fun _ _ => True) paramStep_stays (fun a n again hagain => ?_) true
  rw [paramStep_bind]
  refine .when (H := IsKind .dollar) (sees_head .dollar) ?_ (.seq param_leads (.any _)) ((Fails.reportNext _ rfl).thenPure _)
  refine .bind (Q := fun o => o.ahead.length ≤ n) (param_reads.of_imp fun _ h => h.2)
    (fun o ts o' h hb => h.1.2 ▸ hb.length_le) (fun ok hok => ?_) (fun ok hok => ?_) (.many (.seq (mark_leads.imp fun t h => ?_) (.any _)) fun t h => h.1)
  · obtain rfl : ok = true := hok
    refine Reads.of_iff (.either (H := IsKind .comma) (sees_head .comma) ?_ (.seq mark_leads (.any _)) (.pure rfl)
      (.nothing fun t h => h.2)) fun _ _ _ => Form.many_iff
    refine .andNext (Q := fun o => True ∧ o.ahead.length < n) (F := fun _ => True) (.takeMark rfl) (fun o ts o' h hb => ?_) (hagain true) (.any _)
    exact ⟨trivial, Nat.lt_of_lt_of_le hb.length_lt h.1⟩
  · obtain rfl : ok = false := hok
    exact fun _ h => h
  · exact h.endsTyped rfl (by decide) (by decide) (by decide)

/-- A form before another is left out, or the other comes at once. -/
theorem Form.optional_seq_iff {f g : Form} {o o' : Outlook} {ts : List Tree} :
    (Form.either g (.seq f g)).Builds o ts o' ↔ (Form.seq (.optional f) g).Builds o ts o' := by
  constructor
  · intro h
    cases h with
    | first h => exact .seq (.second (.nothing _)) h
    | second h =>
      cases h with
      | seq hf hg => exact .seq (.first hf) hg
  · intro h
    cases h with
    | seq hf hg =>
      cases hf with
      | first hf => exact .second (.seq hf hg)
      | second hf =>
        cases hf
        exact .first hg

/-- The parenthesis that closes the parameters is read as one. -/
theorem closeParams_reads (opening : Span) : Reads S P (closeParams opening) id (.mark .parenClose) F := by
  unfold closeParams
  rw [accept_bind]
  refine .when (sees_head .parenClose) (.thenPure (.takeMark rfl) rfl) mark_leads ?_
  exact .look atEnd_looks.keeps fun _ => .ite ((Fails.reportUnclosed _ opening rfl).thenPure _) ((Fails.reportNext _ rfl).thenPure _)

/-- A list of parameters is read as one, whatever follows. -/
theorem paramList_reads : Reads S (fun o => IsKind .parenOpen o.head) paramList id .paramList F := by
  refine .node .paramList (Q := fun o => IsKind .parenOpen o.head) (.look nextSpan_looks.keeps fun opening => ?_) fun o h => o.head_placed ▸ h
  refine .andNext (Q := fun _ => True) (F := fun _ => True) (.of_imp (.takeMark (P := fun _ => True) rfl) fun _ h => ⟨trivial, h.1⟩)
    (fun _ _ _ _ _ => trivial) ?_ (.any _)
  refine Reads.of_iff (.either (H := IsKind .parenClose) (sees_head .parenClose) (closeParams_reads opening) mark_leads
    (.andThen (F := EndsParams) (params_reads.of_imp fun _ _ => trivial) (closeParams_reads opening) (mark_leads.imp fun t h => ?_))
    (.seq (.seq (param_leads.imp fun t h => h.ne (by decide)) (.any _)) (.any _))) fun _ _ _ => Form.optional_seq_iff
  exact ⟨h.endsTyped rfl (by decide) (by decide) (by decide), h.ne (by decide)⟩

/-- A list of parameters starts with its parenthesis. -/
theorem paramList_leads : Form.paramList.Leads F (IsKind .parenOpen) :=
  .node (.seq mark_leads (.any _))

/-- A node that is a word starts with it. -/
theorem wordNode_leads {kind : NodeKind} {word : String} : (Form.node kind (.word word)).Leads F (IsWord word) :=
  .node word_leads

/-- A body in braces starts with its brace. -/
theorem enclosedBody_leads : (Form.node .enclosedBody (.bracketed .braceOpen .braceClose)).Leads F (IsKind .braceOpen) :=
  .node (.seq mark_leads (.any _))

/-- The body of a function is read as one, whatever follows. -/
theorem functionBody_reads : Reads S P functionBody id .functionBody F := by
  refine .either (H := IsKind .braceOpen) (sees_head .braceOpen) ?_ enclosedBody_leads ?_
    (wordNode_leads.imp fun t h => h.isKind.ne (by decide))
  · exact .node .enclosedBody (balanced_reads rfl rfl rfl (by decide) _) fun o h => o.head_placed ▸ h.2
  · refine .when (H := IsWord "external") (seesWord_head "external") (.thenPure (.node .externalBody (.takeWord (P := fun _ => True))
      fun o h => ⟨trivial, o.head_placed ▸ h.2⟩) rfl) wordNode_leads ((Fails.reportNext _ rfl).thenPure _)

/-- A body ends the type before it. -/
theorem functionBody_leads : Form.functionBody.Leads F EndsTyped :=
  .either (enclosedBody_leads.imp fun _ h => h.endsTyped rfl (by decide) (by decide) (by decide))
    (wordNode_leads.imp fun _ h => h.endsTyped (by decide))

/-- What follows the name of a function is read in a row. -/
theorem functionTail_reads :
    Reads S P functionTail id (.row [.paramList, .optional .typeDecl, .functionBody]) F := by
  refine .when (H := IsKind .parenOpen) (sees_head .parenOpen) ?_ (.seq paramList_leads (.any _)) ((Fails.reportNext _ rfl).thenPure _)
  exact .andThen (F := fun _ => True) (paramList_reads.of_imp fun _ h => h.2) (.andThen optionalType_reads functionBody_reads functionBody_leads) (.any _)

/-- What follows the words of a function declaration. -/
def functionRest : Rule Bool :=
  (checkNamespace >>= fun _ => expectQName "function name") >>= fun b => if b = true then functionTail else pure false

/-- So is what follows its words. -/
theorem functionRest_reads (hS : ¬ S) : Reads S P functionRest id .functionRest F := by
  refine .andThen (checkedName_reads hS _) functionTail_reads (.seq (G := F) (H := fun _ => True) (paramList_leads.imp fun t h => ?_) (.any _))
  exact h.ne (by decide)

/-! ## Variables and options -/

/-- The value of a variable is read up to the semicolon. -/
theorem varValue_reads : Reads S (fun o => IsKind .colonEquals o.head) varValue id .varValue (IsKind .semicolon) := by
  refine .node .varValue (Q := fun o => True ∧ IsKind .colonEquals o.head) ?_ fun o h => ⟨trivial, o.head_placed ▸ h⟩
  exact .andNext (Q := fun _ => True) (F := fun _ => True) (.takeMark rfl) (fun _ _ _ _ _ => trivial) value_reads (.any _)

/-- A value starts with its mark. -/
theorem varValue_leads : Form.varValue.Leads F (IsKind .colonEquals) :=
  .node (.seq mark_leads (.any _))

/-- The form of what follows the name and the type of a variable. -/
abbrev Form.varTail : Form := .either .varValue (.row [.word "external", .optional .varValue])

/-- What follows the name of a variable is read up to the semicolon. -/
theorem varTail_reads : Reads S P varTail id .varTail (IsKind .semicolon) := by
  refine .either (H := IsKind .colonEquals) (sees_head .colonEquals) (varValue_reads.of_imp fun _ h => h.2) varValue_leads ?_
    (.seq (word_leads.imp fun t h => h.isKind.ne (by decide)) (.any _))
  refine .when (H := IsWord "external") (seesWord_head "external") ?_ (.seq word_leads (.any _)) ((Fails.reportNext _ rfl).thenPure _)
  refine .andNext (Q := fun _ => True) (F := fun _ => True) .takeWord (fun _ _ _ _ _ => trivial) ?_ (.any _)
  exact .either (H := IsKind .colonEquals) (sees_head .colonEquals) (varValue_reads.of_imp fun _ h => h.2) varValue_leads (.pure rfl)
    (.nothing fun t h => h.ne (by decide))

/-- A value or the word `external` ends the type before it. -/
theorem varTail_leads : Form.varTail.Leads F EndsTyped :=
  .either (varValue_leads.imp fun _ h => h.endsTyped rfl (by decide) (by decide) (by decide))
    (.seq (word_leads.imp fun _ h => h.endsTyped (by decide)) (.any _))

/-- What follows the words of a variable declaration. -/
theorem varRest_reads :
    Reads S P (accept .dollar >>= fun b => if b = true then varName else
      report .expectedVariable "`$` before variable name" >>= fun _ => pure false) id .varRest (IsKind .semicolon) := by
  rw [accept_bind]
  refine .when (H := IsKind .dollar) (sees_head .dollar) ?_ (.seq mark_leads (.any _))
    ((Fails.reportNext _ rfl).thenPure _)
  refine .andNext (Q := fun _ => True) (F := fun _ => True) (.takeMark rfl) (fun _ _ _ _ _ => trivial) ?_ (.any _)
  refine .andThen (expectQName_reads _) (.andThen optionalType_reads varTail_reads varTail_leads) ?_
  exact .seq typed_leads varTail_leads

/-- What follows the words of an option is read in a row. -/
theorem optionRest_reads :
    Reads S P (expectQName "option name" >>= fun b => if b = true then stringLiteral "option value" else pure false) id .optionRest F := by
  refine .andThen (expectQName_reads _) (stringLiteral_reads _) (str_leads.imp fun t ⟨u, ht, hq⟩ hc => ?_)
  subst ht
  rw [isKind_some.mp hc] at hq
  cases hq

end

end QueryStubs.Grammar
