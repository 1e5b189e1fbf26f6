import QueryStubs.Proofs.Reader.Types
import QueryStubs.Proofs.Reports.Account
import QueryStubs.Proofs.Syntax.Steps

/-!
# What rules report

`Tells B P r Q` says that from every cursor whose outlook satisfies `P`, and whose brackets ahead are among those that `B` holds of, the
rule `r` makes moves that `Told` allows, and ends with an outlook that satisfies `Q`. Most rules do so from every cursor, complete or not,
so `P` is left open there. Only for what is reported when a bracket is not closed something has to be known: that the bracket was one
(`balanced_tells`), and that nothing is left.

`TakesFirst B P r` says that the first thing `r` does to the account is to take a lexeme.
-/

namespace QueryStubs.Grammar

open QueryStubs

/-- From every cursor that `P` holds of the rule makes moves that are accounted for, and then `Q` holds. -/
def Tells (B : TokenKind → Span → Prop) (P : Outlook → Prop) (r : Rule α) (Q : α → Outlook → Prop) : Prop :=
  ∀ c : Cursor, c.account.Opens B → P c.outlook → Told B c.account (r c).2.account ∧ Q (r c).1 (r c).2.outlook

/-- From every cursor that `P` holds of the rule takes a lexeme, and its further moves are accounted for. -/
def TakesFirst (B : TokenKind → Span → Prop) (P : Outlook → Prop) (r : Rule α) : Prop :=
  ∀ c : Cursor, c.account.Opens B → P c.outlook → Told B c.account.advance (r c).2.account

variable {B : TokenKind → Span → Prop} {P P' : Outlook → Prop}

namespace Tells

/-- More may be assumed and less promised. -/
theorem imp {r : Rule α} {Q Q' : α → Outlook → Prop} (h : Tells B P r Q) (hP : ∀ o, P' o → P o) (hQ : ∀ a o, Q a o → Q' a o) :
    Tells B P' r Q' := by
  intro c hb hp
  obtain ⟨ht, hq⟩ := h c hb (hP _ hp)
  exact ⟨ht, hQ _ _ hq⟩

/-- More may be assumed. -/
theorem of_imp {r : Rule α} {Q : α → Outlook → Prop} (h : Tells B P r Q) (hP : ∀ o, P' o → P o) : Tells B P' r Q :=
  h.imp hP fun _ _ hq => hq

/-- What is known whatever the outlook can be used once for all. -/
theorem of_fact {fact : Prop} {r : Rule α} {Q : α → Outlook → Prop} (h : fact → Tells B P r Q) : Tells B (fun o => fact ∧ P o) r Q :=
  fun c hb hp => h hp.1 c hb hp.2

/-- Giving a result does nothing. -/
theorem pure (a : α) {Q : α → Outlook → Prop} (h : ∀ o, P o → Q a o) : Tells B P (pure a : Rule α) Q :=
  fun _ _ hp => ⟨.refl _, h _ hp⟩

/-- A rule that only answers makes no move. -/
theorem done (a : α) : Tells B P (Pure.pure a : Rule α) fun _ _ => True := pure a fun _ _ => trivial

/-- One rule after another, which may depend on what the first one gave. -/
theorem bind {x : Rule α} {f : α → Rule β} {Q : α → Outlook → Prop} {R : β → Outlook → Prop} (hx : Tells B P x Q)
    (hf : ∀ a, Tells B (Q a) (f a) R) : Tells B P (x >>= f) R := by
  intro c hb hp
  obtain ⟨ht, hq⟩ := hx c hb hp
  obtain ⟨ht', hq'⟩ := hf _ _ (ht.opens hb) hq
  exact ⟨ht.trans ht', hq'⟩

/-- A choice makes moves that are accounted for if both branches do. -/
theorem ite {b : Bool} {x y : Rule α} {Q : α → Outlook → Prop} (hx : b = true → Tells B P x Q) (hy : b = false → Tells B P y Q) :
    Tells B P (if b = true then x else y) Q := by
  cases b with
  | true => exact hx rfl
  | false => exact hy rfl

/-- A rule decides between two others. -/
theorem branch {t : Rule Bool} {x y : Rule α} {Q : Bool → Outlook → Prop} {R : α → Outlook → Prop} (ht : Tells B P t Q)
    (hx : Tells B (Q true) x R) (hy : Tells B (Q false) y R) : Tells B P (t >>= fun b => if b = true then x else y) R :=
  bind ht fun _ => ite (fun hb => hb ▸ hx) fun hb => hb ▸ hy

/-- A rule and, if it was complete, another. -/
theorem andThen {x y : Rule Bool} {Q : Bool → Outlook → Prop} (hx : Tells B P x Q) (hy : Tells B (Q true) y fun _ _ => True) :
    Tells B P (x >>= fun b => if b = true then y else Pure.pure false) fun _ _ => True :=
  branch hx hy (done false)

end Tells

namespace TakesFirst

variable {x : Rule α} {k : α → Rule β}

/-- Other rules may follow. -/
theorem bind (hx : TakesFirst B P x) (hk : ∀ a, Tells B (fun _ => True) (k a) fun _ _ => True) : TakesFirst B P (x >>= k) := by
  intro c hb hp
  have ht := hx c hb hp
  exact ht.trans (hk _ _ (((Told.refl _).advance.trans ht).opens hb) trivial).1

/-- Taking a lexeme is accounted for. -/
theorem tells {r : Rule α} (h : TakesFirst B P r) : Tells B P r fun _ _ => True :=
  fun c hb hp => ⟨(Told.refl _).advance.trans (h c hb hp), trivial⟩

end TakesFirst

/-! ## Looking ahead -/

/-- What leaves the reading as it is leaves the account as it is. -/
theorem Keeps.tells {x : Rule α} {A : α → Outlook → Prop} (h : Keeps x A) : Tells B P x fun a o => P o ∧ A a o := by
  intro c _ hp
  obtain ⟨hr, ha⟩ := h c
  have hc : (x c).2.account = c.account := congrArg Reading.account hr
  have ho : (x c).2.outlook = c.outlook := congrArg Reading.outlook hr
  rw [hc, ho]
  exact ⟨.refl _, hp, ha⟩

/-- Looking ahead makes no move. -/
theorem Looks.tells {n : Nat} {x : Rule α} {A : α → Outlook → Prop} (h : Looks n x A) : Tells B P x fun a o => P o ∧ A a o :=
  h.keeps.tells

/-- A look decides between two rules, and each of them may count on what the look found. -/
theorem Looks.test_tells {n : Nat} {t : Rule Bool} {T : Outlook → Prop} {x y : Rule α} {Q : α → Outlook → Prop}
    (ht : Looks n t fun b o => b = true ↔ T o) (hx : Tells B (fun o => P o ∧ T o) x Q) (hy : Tells B (fun o => P o ∧ ¬T o) y Q) :
    Tells B P (t >>= fun b => if b = true then x else y) Q :=
  .branch ht.tells (hx.of_imp fun _ h => ⟨h.1, h.2.mp rfl⟩) (hy.of_imp fun _ h => ⟨h.1, fun hT => nomatch h.2.mpr hT⟩)

/-- Looking first takes nothing. -/
theorem Keeps.takesFirst {x : Rule α} {A : α → Outlook → Prop} {k : α → Rule β} (h : Keeps x A)
    (hk : ∀ a, TakesFirst B (fun o => P o ∧ A a o) (k a)) : TakesFirst B P (x >>= k) := by
  intro c hb hp
  obtain ⟨a, d, hrun, hd, ha⟩ := h.peel (c := c) rfl k
  have hc : Reading.account (Cursor.toReading d) = c.account := congrArg Reading.account hd
  have ho : Reading.outlook (Cursor.toReading d) = c.outlook := congrArg Reading.outlook hd
  rw [hrun, ← hc]
  exact hk a d (hc.symm ▸ hb) (ho.symm ▸ ⟨hp, ha⟩)

/-- A demand makes no move. -/
theorem demand_tells (condition : Bool) (defect : Defect) : Tells B P (demand condition defect) fun _ => P :=
  (demand_keeps condition defect).tells.imp (fun _ h => h) fun _ _ h => h.1

/-! ## Taking lexemes and building nodes -/

section Taking

variable {r : Rule Unit} {record : Token → Token}

/-- A rule that takes the next lexeme is accounted for, whether or not one is left. -/
theorem advance_tells {Q : Unit → Outlook → Prop} (hr : ∀ c, r c = ((), c.advance record)) (hnil : ∀ o, P o → o.ahead = [] → Q () o)
    (hcons : ∀ o l ls, P o → o.ahead = l :: ls → Q () ⟨ls, o.tail, l.span.stop⟩) : Tells B P r Q := by
  intro c _ hp
  rw [hr]
  refine ⟨account_advance record c ▸ (Told.refl _).advance, ?_⟩
  unfold Cursor.advance
  cases ha : c.ahead with
  | nil => exact hnil _ hp ha
  | cons l ls => exact hcons _ l ls hp ha

/-- Taking a lexeme is the first thing that is done, whatever follows. -/
theorem advance_takesFirst (hr : ∀ c, r c = ((), c.advance record)) : TakesFirst B P r := by
  intro c _ _
  rw [hr, ← account_advance record c]
  exact .refl _

end Taking

/-- Taking a lexeme is accounted for. -/
theorem take_tells : Tells B P take fun _ _ => True := (advance_takesFirst fun _ => rfl).tells

/-- Taking a keyword is accounted for. -/
theorem takeKeyword_tells : Tells B P takeKeyword fun _ _ => True := (advance_takesFirst fun _ => rfl).tells

/-- Taking some keywords is accounted for. -/
theorem takeKeywords_tells (n : Nat) : Tells B P (takeKeywords n) fun _ _ => True := by
  induction n generalizing P with
  | zero => exact .done ()
  | succ n ih => exact .bind takeKeyword_tells fun _ => ih

/-- What follows the words of a declaration may be anything that is accounted for. -/
theorem TakesFirst.words (n : Nat) {r : Rule α} (h : Tells B (fun _ => True) r fun _ _ => True) :
    TakesFirst B P (takeKeywords (n + 1) >>= fun _ => r) :=
  .bind (.bind (advance_takesFirst fun _ => rfl) fun _ => takeKeywords_tells n) fun _ => h

/-- What is ahead behind the next lexeme if there is one. -/
theorem take_kindAt {i : Nat} {kind : TokenKind} {record : Token → Token} {r : Rule Unit} (hr : ∀ c, r c = ((), c.advance record)) :
    Tells B (Outlook.KindAt (i + 1) kind) r fun _ => Outlook.KindAt i kind := by
  refine advance_tells hr (fun o h ha => ?_) fun o l ls h ha => ?_
  · simp [Outlook.KindAt, ha] at h
  · simpa [Outlook.KindAt, ha] using h

/-- Taking a lexeme where one is left leaves fewer. -/
theorem take_shorter (k : Nat) : Tells B (fun o => o.ahead ≠ [] ∧ o.ahead.length = k) take fun _ o => o.ahead.length < k := by
  refine advance_tells (fun _ => rfl) (fun o h hn => absurd hn h.1) fun o l ls h ha => ?_
  have hk := h.2
  rw [ha, List.length_cons] at hk
  exact hk ▸ Nat.lt_succ_self _

/-- Accepting a lexeme is accounted for. -/
theorem accept_tells (kind : TokenKind) : Tells B P (accept kind) fun _ _ => True :=
  .branch (sees_looks kind).tells (.bind take_tells fun _ => .done true) (.done false)

/-- Placing the trivia makes no move. -/
theorem placeTrivia_tells {Q : Outlook → Prop} (h : ∀ o, P o → Q o.placed) : Tells B P placeTrivia fun _ => Q := by
  intro c _ hp
  have hrun : (placeTrivia c).2 = c.placeTrivia := rfl
  rw [hrun, account_placeTrivia, outlook_placeTrivia]
  exact ⟨.refl _, h _ hp⟩

/-- What is accounted for in a rule is so in its node. -/
theorem nodeWithLead_tells (kind : NodeKind) {r : Rule α} {Q : α → Outlook → Prop} (h : Tells B P r Q) : Tells B P (nodeWithLead kind r) Q :=
  fun c hb hp => h (c.startNode kind) hb hp

/-- It is so in a node that has the trivia in front of it, too. -/
theorem node_tells (kind : NodeKind) {r : Rule α} {Q : α → Outlook → Prop} (h : Tells B P' r Q) (hP : ∀ o, P o → P' o.placed) :
    Tells B P (node kind r) Q :=
  .bind (placeTrivia_tells hP) fun _ => nodeWithLead_tells kind h

/-- A node whose inside is accounted for whatever comes next. -/
theorem freeNode_tells (kind : NodeKind) {r : Rule α} {Q : α → Outlook → Prop} (h : Tells B (fun _ => True) r Q) :
    Tells B P (node kind r) Q :=
  node_tells kind h fun _ _ => trivial

/-- A node whose inside starts with a lexeme. -/
theorem TakesFirst.node (kind : NodeKind) {r : Rule α} (h : TakesFirst B P' r) (hP : ∀ o, P o → P' o.placed) :
    TakesFirst B P (Grammar.node kind r) := by
  intro c hb hp
  let d : Cursor := c.placeTrivia.startNode kind
  have hrun : (Grammar.node kind r c).2.account = (r d).2.account := rfl
  have hd : d.account = c.account := account_placeTrivia c
  have ho : d.outlook = c.outlook.placed := outlook_placeTrivia c
  rw [hrun, ← hd]
  exact h d (hd.symm ▸ hb) (ho.symm ▸ hP _ hp)

/-! ## Loops -/

/-- A loop keeps what each of its rounds keeps, and ends as its last round does. A round after which the loop goes on takes a lexeme, or
ends as well as the last. -/
theorem repeatRule_tells {step : σ → Rule (Bool × σ)} {I Q : σ → Outlook → Prop}
    (h : ∀ a k, Tells B (fun o => I a o ∧ o.ahead.length = k) (step a) fun r o =>
      if r.1 = true then I r.2 o ∧ (o.ahead.length < k ∨ Q r.2 o) else Q r.2 o) (a : σ) :
    Tells B (I a) (repeatRule step a) Q := by
  intro c
  fun_induction repeatRule step a c with
  | case1 a c b d hs =>
    intro hb hi
    obtain ⟨ht, hq⟩ := h a _ c hb ⟨hi, rfl⟩
    rw [hs] at ht hq
    exact ⟨ht, hq⟩
  | case2 a c b d hs hlt ih =>
    intro hb hi
    obtain ⟨ht, hq⟩ := h a _ c hb ⟨hi, rfl⟩
    rw [hs] at ht hq
    obtain ⟨ht', hq'⟩ := ih (ht.opens hb) hq.1
    exact ⟨ht.trans ht', hq'⟩
  | case3 a c b d hs hlt =>
    intro hb hi
    obtain ⟨ht, hq⟩ := h a _ c hb ⟨hi, rfl⟩
    rw [hs] at ht hq
    exact ⟨ht, hq.2.resolve_left hlt⟩

/-- A loop whose rounds are accounted for is accounted for. -/
theorem loop_tells {step : σ → Rule (Bool × σ)} (h : ∀ a, Tells B (fun _ => True) (step a) fun _ _ => True) (a : σ) :
    Tells B P (repeatRule step a) fun _ _ => True := by
  refine (repeatRule_tells (I := fun _ _ => True) (Q := fun _ _ => True) (fun a k => ?_) a).of_imp fun _ _ => trivial
  refine (h a).imp (fun _ _ => trivial) fun r _ _ => ?_
  split
  · exact ⟨trivial, .inr trivial⟩
  · trivial

/-! ## Reports -/

/-- A report at the next lexeme is accounted for if its kind is one that points there. -/
theorem reportNext_tells {kind : DiagnosticKind} (hk : kind.isPointed = true) (detail : Option String) :
    Tells B P (reportNext kind detail) fun _ => P := by
  intro c _ hp
  have hrun : (reportNext kind detail c).2 = c.look.addReport c.nextSpan.start ⟨kind, c.nextSpan, detail, []⟩ := rfl
  rw [hrun, (addReport_frame c.look _ _).1, ← next_account c]
  refine ⟨?_, hp⟩
  rcases account_addReport c.account.next.start ⟨kind, c.account.next, detail, []⟩ c.look with ⟨-, hs⟩ | ⟨ho, hs⟩
  · rw [hs]
    exact .refl _
  · rw [hs]
    exact (Told.refl _).point detail hk ho

/-- What is missing is reported and left out. -/
theorem missing_tells {kind : DiagnosticKind} (hk : kind.isPointed = true) (detail : Option String) :
    Tells B P (reportNext kind detail >>= fun _ => pure false) fun _ _ => True :=
  .bind (reportNext_tells hk detail) fun _ => .done false

/-- A bracket that was passed is reported where nothing is left. -/
theorem reportUnclosed_tells {kind : DiagnosticKind} {bracket : TokenKind} (hk : kind.isAbout bracket = true) (note : String)
    {opening : Span} (ho : B bracket opening) (hP : ∀ o, P o → o.ahead = []) : Tells B P (reportUnclosed kind note opening) fun _ => P := by
  intro c _ hp
  have hnil : c.account.ahead = [] := ahead_account_eq_nil.mpr (hP _ hp)
  have hspan : c.nextSpan = .empty c.limit := (next_account c).symm.trans (Account.next_of_nil hnil)
  obtain ⟨d, hd, hrun⟩ : ∃ d : Cursor, d.toReading = c.toReading ∧ (reportUnclosed kind note opening c).2 =
      d.addReport c.account.next.start ⟨kind, ⟨opening.start, c.account.limit⟩, none, [⟨note, opening⟩]⟩ := by
    refine ⟨c.look.demand (decide (opening.start ≤ c.nextSpan.stop)) .reversedSpan, (demand_keeps _ _ c.look).1, ?_⟩
    rw [next_account, hspan]
    exact congrArg (fun s : Span => (c.look.demand (decide (opening.start ≤ s.stop)) .reversedSpan).addReport s.start
      ⟨kind, ⟨opening.start, s.stop⟩, none, [⟨note, opening⟩]⟩) hspan
  have hc : Reading.account (Cursor.toReading d) = c.account := congrArg Reading.account hd
  have hout : Reading.outlook (Cursor.toReading d) = c.outlook := congrArg Reading.outlook hd
  rw [hrun, (addReport_frame d _ _).1, hout]
  refine ⟨?_, hp⟩
  rcases account_addReport c.account.next.start ⟨kind, ⟨opening.start, c.account.limit⟩, none, [⟨note, opening⟩]⟩ d with ⟨-, hs⟩ | ⟨hlast, hs⟩
  · rw [hs, hc]
    exact .refl _
  · have hsame : d.lastReport = c.account.lastReport := congrArg Account.lastReport hc
    rw [hs, hc]
    exact (Told.refl _).unclosed note hk ho hnil fun h => hlast (hsame.trans h)

/-! ## Words, names and literals -/

/-- Expecting a lexeme is accounted for. -/
theorem expect_tells (kind : TokenKind) (what : String) : Tells B P (expect kind what) fun _ _ => True :=
  .branch (accept_tells kind) (.done true) (missing_tells rfl _)

/-- Accepting one of some words is accounted for. -/
theorem acceptWordOf_tells (words : List String) : Tells B P (acceptWordOf words) fun _ _ => True := by
  induction words generalizing P with
  | nil => exact .done false
  | cons word words ih => exact .branch (seesWordAt_looks 0 word).tells (.bind takeKeyword_tells fun _ => .done true) ih

/-- Expecting one of some words is accounted for. -/
theorem expectWordOf_tells (words : List String) : Tells B P (expectWordOf words) fun _ _ => True :=
  .branch (acceptWordOf_tells words) (.done true) (missing_tells rfl _)

/-- Skipping ends at the end of the source or where it is to stop. -/
theorem skipUntil_tells {stop : Rule Bool} {S : Outlook → Prop} (h : Keeps stop fun b o => b = true → S o) :
    Tells B P (skipUntil stop) fun _ o => o.ahead = [] ∨ S o := by
  have hstep : ∀ (a : Unit) k, Tells B (fun o => True ∧ o.ahead.length = k) (skipStep stop a) fun r o =>
      if r.1 = true then True ∧ (o.ahead.length < k ∨ o.ahead = [] ∨ S o) else o.ahead = [] ∨ S o := by
    intro a k
    refine atEnd_looks.test_tells (.pure _ fun o ho => .inl ho.2) ?_
    refine .bind h.tells fun b => .ite (fun hb => .pure _ fun o ho => .inr (ho.2 hb)) fun _ => ?_
    refine .bind ((take_shorter k).of_imp fun o ho => ⟨ho.1.2, ho.1.1.2⟩) fun _ => ?_
    exact .bind lookPast_looks.tells fun _ => .pure _ fun o ho => ⟨trivial, .inl ho.1⟩
  refine atEnd_looks.test_tells (.pure _ fun o ho => .inl ho.2) ?_
  refine .bind h.tells fun b => .ite (fun hb => .pure _ fun o ho => .inr (ho.2 hb)) fun _ => ?_
  exact freeNode_tells .error (repeatRule_tells (I := fun _ _ => True) (Q := fun _ o => o.ahead = [] ∨ S o) hstep ())

/-- The first lexeme of a name is the first that is taken for it. -/
theorem qname_takesFirst : TakesFirst B P qname := by
  have hinside : TakesFirst B (fun _ => True)
      (do take; if ← seesTouching 0 .colon then if ← seesTouching 1 .name then take; take) :=
    .bind (advance_takesFirst fun _ => rfl) fun _ => .branch (seesTouching_looks 0 .colon).tells
      (.branch (seesTouching_looks 1 .name).tells (.bind take_tells fun _ => take_tells) (.done ())) (.done ())
  exact (sees_looks .name).keeps.takesFirst fun _ => (demand_keeps _ _).takesFirst fun _ => .node .qname hinside fun _ _ => trivial

/-- So a name that comes next is taken where a name is required. -/
theorem expectQName_takesFirst (what : String) : TakesFirst B (Outlook.KindAt 0 .name) (expectQName what) := by
  refine (sees_looks .name).keeps.takesFirst fun b => ?_
  cases b with
  | true => exact .bind qname_takesFirst fun _ => .done true
  | false => exact fun _ _ h => nomatch h.2.mpr h.1

/-- Expecting a name is accounted for. -/
theorem expectQName_tells (what : String) : Tells B P (expectQName what) fun _ _ => True :=
  .branch (sees_looks .name).tells (.bind qname_takesFirst.tells fun _ => .done true) (missing_tells rfl _)

/-- Expecting a name without a prefix is accounted for. -/
theorem expectNCName_tells (what : String) : Tells B P (expectNCName what) fun _ _ => True := by
  refine .branch (sees_looks .name).tells ?_ (missing_tells rfl _)
  exact .branch (seesTouching_looks 1 .colon).tells (missing_tells rfl _) (.bind take_tells fun _ => .done true)

/-- The end of a literal is accounted for. -/
theorem literalEnd_tells (opening : Option TokenKind) : Tells B P (literalEnd opening) fun _ _ => True :=
  .bind (peekRaw_looks 0).tells fun _ => .bind (demand_tells _ _) fun _ => take_tells

/-- The tokens of a literal are accounted for. -/
theorem literalTokens_tells : Tells B P literalTokens fun _ _ => True := by
  refine .bind nextKind_looks.tells fun opening => .bind take_tells fun _ => ?_
  exact .branch (seesTouching_looks 0 .literalText).tells (.bind take_tells fun _ => literalEnd_tells opening) (literalEnd_tells opening)

/-- A string literal is accounted for. -/
theorem stringLiteral_tells (what : String) : Tells B P (stringLiteral what) fun _ _ => True := by
  refine .bind nextKind_looks.tells fun _ => .ite (fun _ => ?_) fun _ => missing_tells rfl _
  exact .bind (freeNode_tells .str literalTokens_tells) fun _ => .done true

/-- Rules in order, as long as they are complete. -/
theorem inOrder_tells {rules : List (Rule Bool)} (h : ∀ r ∈ rules, Tells B (fun _ => True) r fun _ _ => True) :
    Tells B P (inOrder rules) fun _ _ => True := by
  induction rules generalizing P with
  | nil => exact .done true
  | cons r rules ih =>
    obtain ⟨hr, hrules⟩ := List.forall_mem_cons.mp h
    exact .andThen (hr.of_imp fun _ _ => trivial) (ih hrules)

/-! ## Sequence types -/

/-- The lexeme that comes next is taken, and if it is an opening bracket, it is among those that may be reported. -/
theorem scanned_tells {kind : TokenKind} {k : Nat} {f : Span → Rule α} {Q : α → Outlook → Prop}
    (h : ∀ span, (kind.isOpening = true → B kind span) → Tells B (fun o => o.ahead.length < k) (f span) Q) :
    Tells B (fun o => o.KindAt 0 kind ∧ o.ahead.length = k) (nextSpan >>= fun span => take >>= fun _ => f span) Q := by
  rintro c hb ⟨hp, hk⟩
  obtain ⟨l, ls, ha, hl⟩ := hp.cons
  have ha : c.ahead = l :: ls := ha
  have hbracket : kind.isOpening = true → B kind l.bare.span := fun ho =>
    hl ▸ hb l.bare (by rw [Reading.account, ha]; exact List.mem_cons_self ..) (by rw [← ho, ← hl]; rfl)
  have hspan : c.nextSpan = l.span := by rw [Cursor.nextSpan, ha]
  have hrun : (nextSpan >>= fun span => take >>= fun _ => f span) c = (take >>= fun _ => f c.nextSpan) c.look := rfl
  have htake : Tells B (fun o => o.ahead ≠ [] ∧ o.ahead.length = k) (take >>= fun _ => f l.span) Q :=
    .bind (take_shorter k) fun _ => h l.span hbracket
  rw [hrun, hspan]
  exact htake c.look hb ⟨fun hn => List.cons_ne_nil l ls (ha.symm.trans hn), hk⟩

/-- A bracket that comes next is among those that may be reported. -/
theorem bracket_tells {kind : TokenKind} (hk : kind.isOpening = true) {f : Span → Rule α} {Q : α → Outlook → Prop}
    (h : ∀ opening, B kind opening → Tells B (fun _ => True) (f opening) Q) :
    Tells B (Outlook.KindAt 0 kind) (nextSpan >>= fun opening => take >>= fun _ => f opening) Q :=
  fun c hb hp => scanned_tells (fun span hs => (h span (hs hk)).of_imp fun _ _ => trivial) c hb ⟨hp, rfl⟩

/-- A run of balanced brackets, of which the first comes next. -/
theorem balanced_tells {openKind closeKind : TokenKind} (ho : openKind.isOpening = true) {unclosed : DiagnosticKind}
    (hk : unclosed.isAbout openKind = true) (note : String) :
    Tells B (Outlook.KindAt 0 openKind) (balanced openKind closeKind unclosed note) fun _ _ => True := by
  refine bracket_tells ho fun opening hb => .bind (loop_tells (fun depth => ?_) 1) fun _ => .done _
  refine .bind nextKind_looks.tells fun kind => atEnd_looks.test_tells ?_ (.bind take_tells fun _ => ?_)
  · exact .bind (reportUnclosed_tells hk note hb fun _ h => h.2) fun _ => .done _
  · by_cases h : kind = some openKind
    · rw [if_pos h]
      exact .done _
    · rw [if_neg h]
      split <;> exact .done _

/-- A mark of occurrence is accounted for. -/
theorem occurrenceMark_tells : Tells B P occurrenceMark fun _ _ => True := by
  refine .bind nextKind_looks.tells fun _ => .ite (fun _ => ?_) fun _ => .done ()
  exact freeNode_tells .occurrence take_tells

/-- A type with nothing in its parentheses is accounted for. -/
theorem emptyParens_tells (kind : NodeKind) : Tells B P (emptyParens kind) fun _ _ => True := by
  refine freeNode_tells kind ?_
  exact .bind takeKeyword_tells fun _ => .bind (sees_looks .parenOpen).tells fun _ => .bind (demand_tells _ _) fun _ =>
    .bind take_tells fun _ => expect_tells _ _

/-- A kind test, behind whose keyword a parenthesis comes. -/
theorem kindTest_tells : Tells B (Outlook.KindAt 1 .parenOpen) kindTest fun _ _ => True := by
  refine node_tells .kindTest ?_ fun _ h => h.placed
  exact .bind (take_kindAt fun _ => rfl) fun _ => balanced_tells rfl rfl _

/-- A test and then, if it is complete, the mark after it. -/
theorem marked_tells {r : Rule Bool} (h : Tells B P r fun _ _ => True) :
    Tells B P (r >>= fun b => if b = true then occurrenceMark >>= fun _ => pure true else pure false) fun _ _ => True :=
  .andThen h (.bind occurrenceMark_tells fun _ => .done true)

/-- A type that starts with a word and a parenthesis is accounted for. -/
theorem testType_tells (name : String) : Tells B (Outlook.KindAt 1 .parenOpen) (testType name) fun _ _ => True := by
  unfold testType
  split
  · exact emptyParens_tells _
  split
  · exact marked_tells (emptyParens_tells _)
  split
  · exact marked_tells kindTest_tells
  · exact missing_tells rfl _

/-- An atomic type is accounted for. -/
theorem atomicType_tells : Tells B P atomicType fun _ _ => True :=
  .bind (freeNode_tells .atomicType qname_takesFirst.tells) fun _ =>
    .bind occurrenceMark_tells fun _ => .done true

/-- An item type is accounted for. -/
theorem itemType_tells : Tells B P itemType fun _ _ => True := by
  refine .branch (sees_looks .name).tells (.bind nextText_looks.tells fun name => ?_) (missing_tells rfl _)
  refine .branch (seesTouching_looks 1 .colon).tells atomicType_tells ?_
  refine (seesAt_looks 1 .parenOpen).test_tells ?_ atomicType_tells
  exact (testType_tells name).of_imp fun _ h => h.2

/-- A type that may be left out is accounted for. -/
theorem optionalType_tells : Tells B P optionalType fun _ _ => True := by
  refine .branch (seesWordAt_looks 0 "as").tells ?_ (.done true)
  refine freeNode_tells .typeDecl (.bind takeKeyword_tells fun _ => ?_)
  exact nodeWithLead_tells .sequenceType itemType_tells

end QueryStubs.Grammar
