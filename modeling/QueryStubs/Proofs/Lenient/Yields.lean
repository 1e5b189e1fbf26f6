import QueryStubs.Proofs.Syntax.Declarations
import QueryStubs.Proofs.Views.Rows

/-!
# What a good result is worth in a broken source

In a broken source a rule is used where an error was reported before, and not every construct that is begun becomes one. `Yields P r good f`
says that there too a good result of the rule `r` stands for a whole construct: whatever was reported before, `r` has built trees of the form
`f` then. Nothing is said of what comes behind, so that a construct may be followed by anything.

A result that is not good says nothing by itself. `Adds r C` says which nodes a rule may add in any case: nodes that `C` allows.
-/

namespace QueryStubs.Grammar

open QueryStubs

/-- From every cursor that `P` holds of, whatever was reported before it, a good result of the rule means that it has built trees of the
form. -/
def Yields (P : Outlook → Prop) (r : Rule α) (good : α → Bool) (f : Form) : Prop :=
  ∀ c : Cursor, P c.outlook → good (r c).1 = true → ∃ ts, (r c).2.parts = c.parts ++ ts ∧ f.Builds c.outlook ts (r c).2.outlook

/-- The rule adds a row to the open construct, and the constructs in it are such as `C` allows. -/
def Adds (r : Rule α) (C : NodeKind × List Tree → Prop) : Prop :=
  ∀ c : Cursor, ∃ ts, (r c).2.parts = c.parts ++ ts ∧ ∀ x ∈ Tree.constructs ts, C x

/-! ## Rules in order -/

namespace Yields

variable {P : Outlook → Prop} {f g : Form} {good : α → Bool} {r : Rule α}

/-- More may be assumed of the start. -/
theorem of_imp {P' : Outlook → Prop} (h : Yields P r good f) (hP : ∀ o, P' o → P o) : Yields P' r good f :=
  fun c hp => h c (hP _ hp)

/-- A form may be described in another way. -/
theorem conv (h : Yields P r good f) (hfg : ∀ o ts o', f.Builds o ts o' → g.Builds o ts o') : Yields P r good g := by
  intro c hp hg
  obtain ⟨ts, hts, hb⟩ := h c hp hg
  exact ⟨ts, hts, hfg _ _ _ hb⟩

/-- A form that is read is one of two. -/
theorem first (h : Yields P r good f) : Yields P r good (.either f g) := h.conv fun _ _ _ => .first

/-- So is the other. -/
theorem second (h : Yields P r good g) : Yields P r good (.either f g) := h.conv fun _ _ _ => .second

/-- What is read whatever is left is read. -/
theorem of_length (h : ∀ n, Yields (fun o => P o ∧ o.ahead.length = n) r good f) : Yields P r good f :=
  fun c hp => h _ c ⟨hp, rfl⟩

/-- A rule may do the same as another wherever it is used. -/
theorem of_agree {r' : Rule α} (h : Yields P r' good f) (he : ∀ c : Cursor, P c.outlook → r c = r' c) : Yields P r good f :=
  fun c hp => he c hp ▸ h c hp

theorem pure (a : α) : Yields P (pure a : Rule α) good .nothing :=
  fun c _ _ => ⟨[], (List.append_nil _).symm, .nothing c.outlook⟩

/-- A rule whose result is never good promises nothing. -/
theorem never (h : ∀ c, good (r c).1 = false) : Yields P r good f :=
  fun c _ hg => absurd hg (by simp [h c])

/-- What is reported as missing is not there. -/
theorem missing {f : Form} (kind : DiagnosticKind) (detail : Option String) :
    Yields P (reportNext kind detail >>= fun _ => Pure.pure false) id f :=
  never fun _ => rfl

/-- One rule after another. A result that is not good comes to nothing good. -/
theorem bind {Q : Outlook → Prop} {x : Rule α} {k : α → Rule β} {good' : β → Bool} (hx : Yields P x good f)
    (hQ : ∀ o ts o', P o → f.Builds o ts o' → Q o') (hk : ∀ a, good a = true → Yields Q (k a) good' g)
    (hbad : ∀ a, good a = false → ∀ c, good' (k a c).1 = false) : Yields P (x >>= k) good' (.seq f g) := by
  intro c hp hg'
  rw [bind_run] at hg' ⊢
  cases hg : good (x c).1 with
  | false => simp [hbad _ hg] at hg'
  | true =>
    obtain ⟨ts, hts, hf⟩ := hx c hp hg
    obtain ⟨us, hus, hg⟩ := hk _ hg _ (hQ _ _ _ hp hf) hg'
    exact ⟨ts ++ us, by rw [hus, hts, List.append_assoc], .seq hf hg⟩

/-- A rule may be followed by another if it is complete. -/
theorem andThen {x y : Rule Bool} (hx : Yields P x id f) (hy : Yields (fun _ => True) y id g) :
    Yields P (x >>= fun b => if b = true then y else Pure.pure false) id (.seq f g) := by
  refine bind hx (fun _ _ _ _ _ => trivial) (fun b hb => ?_) fun b hb => ?_
  · obtain rfl : b = true := hb
    exact hy
  · obtain rfl : b = false := hb
    exact fun _ => rfl

/-- A rule without a result is followed by another. -/
theorem andNext {Q : Outlook → Prop} {x : Rule Unit} {y : Rule α} (hx : Yields P x (fun _ => true) f)
    (hQ : ∀ o ts o', P o → f.Builds o ts o' → Q o') (hy : Yields Q y good g) : Yields P (x >>= fun _ => y) good (.seq f g) :=
  bind hx hQ (fun _ _ => hy) fun _ h => Bool.noConfusion h

/-- A result may be given after a rule that has none. -/
theorem thenPure {x : Rule β} (h : Yields P x (fun _ => true) f) (a : α) : Yields P (x >>= fun _ => Pure.pure a) good f :=
  fun c hp _ => h c hp rfl

/-- Looking first changes nothing, and what was found may be counted on. -/
theorem look {x : Rule β} {A : β → Outlook → Prop} {k : β → Rule α} (hx : Keeps x A)
    (hk : ∀ a, Yields (fun o => P o ∧ A a o) (k a) good f) : Yields P (x >>= k) good f := by
  intro c hp hg
  obtain ⟨hr, ha⟩ := hx c
  have ho : (x c).2.outlook = c.outlook := congrArg Reading.outlook hr
  obtain ⟨ts, hts, hb⟩ := hk (x c).1 (x c).2 (ho ▸ ⟨hp, ha⟩) hg
  exact ⟨ts, hr ▸ hts, ho ▸ hb⟩

theorem ite {b : Bool} {x y : Rule α} (hx : b = true → Yields P x good f) (hy : b = false → Yields P y good f) :
    Yields P (if b = true then x else y) good f := by
  cases b with
  | true => exact hx rfl
  | false => exact hy rfl

/-- A loop yields what one round and the loop after it do, if the round takes a lexeme whenever it is to go on. -/
theorem loop {step : σ → Rule (Bool × σ)} {L : σ → Form} {Q : σ → Outlook → Prop} {good : σ → Bool}
    (h : ∀ a n (again : σ → Rule σ), (∀ b, Yields (fun o => Q b o ∧ o.ahead.length < n) (again b) good (L b)) →
      Yields (fun o => Q a o ∧ o.ahead.length = n) (step a >>= fun r => if r.1 = true then again r.2 else Pure.pure r.2) good (L a))
    (a : σ) : Yields (Q a) (repeatRule step a) good (L a) := by
  refine .of_length fun n => ?_
  induction n using Nat.strongRecOn generalizing a with
  | ind n ih =>
    have hbehind : ∀ b, Yields (fun o => Q b o ∧ o.ahead.length < n) (loopBehind step n b) good (L b) := by
      intro b
      have hloop : Yields (fun o => Q b o ∧ o.ahead.length < n) (repeatRule step b) good (L b) :=
        fun c hp => ih _ hp.2 b c ⟨hp.1, rfl⟩
      exact hloop.of_agree fun c hp => if_pos hp.2
    refine (h a n _ hbehind).of_agree fun c hp => ?_
    have hn : c.ahead.length = n := hp.2
    rw [repeatRule_round, hn]

/-! ## Taking lexemes and building nodes -/

/-- A rule that moves past lexemes builds what they make. -/
theorem of_past (h : ∀ c : Cursor, P c.outlook → good (r c).1 = true → ∃ ts run ls, (r c).2.toReading = c.toReading.past ts run ls ∧
    f.Builds c.outlook ts ⟨ls, c.tail, reachedBy c.reached run⟩) : Yields P r good f := by
  intro c hp hg
  obtain ⟨ts, run, ls, hd, hb⟩ := h c hp hg
  rw [hd]
  exact ⟨ts, rfl, hb⟩

/-- Taking the next lexeme, in the form that it is recorded in. -/
theorem advance {x : Rule Unit} {record : Token → Token} (hx : ∀ c, x c = ((), c.advance record))
    (hP : ∀ o, P o → ∃ l ls, o.ahead = l :: ls ∧
      f.Builds ⟨l :: ls, o.tail, o.reached⟩ (leavesFor l.lead ++ [.leaf (record l.token)]) ⟨ls, o.tail, l.span.stop⟩) :
    Yields P x (fun _ => true) f := by
  refine of_past fun c hp _ => ?_
  obtain ⟨l, ls, ha, hb⟩ := hP _ hp
  have ha : c.ahead = l :: ls := ha
  rw [hx, Reading.outlook, ha]
  exact ⟨_, [l], ls, advance_past record ha, hb⟩

/-- Taking a lexeme of one of some kinds. -/
theorem take {p : TokenKind → Bool} (hp : ∀ o, P o → IsOf p o.head) : Yields P take (fun _ => true) (.one p) := by
  refine advance (fun _ => rfl) fun o ho => ?_
  obtain ⟨t, ht, hk⟩ := hp o ho
  obtain ⟨l, ls, ha, rfl⟩ := Outlook.ahead_of_head ht
  exact ⟨l, ls, ha, .one ls _ _ hk⟩

/-- Taking a lexeme of a kind. -/
theorem takeMark {kind : TokenKind} (hp : ∀ o, P o → IsKind kind o.head) : Yields P Grammar.take (fun _ => true) (.mark kind) := by
  refine take fun o ho => ?_
  obtain ⟨t, ht, hk⟩ := Option.map_eq_some_iff.mp (hp o ho)
  exact ⟨t, ht, decide_eq_true hk⟩

/-- Taking one of some words. -/
theorem takeKeyword {words : List String} (hp : ∀ o, P o → ∃ w ∈ words, IsWord w o.head) :
    Yields P takeKeyword (fun _ => true) (.keyword words) := by
  refine advance (fun _ => rfl) fun o ho => ?_
  obtain ⟨w, hw, hword⟩ := hp o ho
  obtain ⟨t, ht, hk, rfl⟩ := hword.token
  obtain ⟨l, ls, ha, rfl⟩ := Outlook.ahead_of_head ht
  exact ⟨l, ls, ha, .keyword ls _ _ hk hw⟩

/-- Taking a word. -/
theorem takeWord {w : String} (hp : ∀ o, P o → IsWord w o.head) : Yields P Grammar.takeKeyword (fun _ => true) (.word w) :=
  takeKeyword fun o ho => ⟨w, List.mem_singleton.mpr rfl, hp o ho⟩

/-- The inside of a node is read apart. -/
theorem leadNode (kind : NodeKind) (h : Yields P r good f) : Yields P (nodeWithLead kind r) good (.leadNode kind f) := by
  intro c hp hg
  obtain ⟨ts, hts, hb⟩ := h (c.startNode kind) hp hg
  have hts : (r (c.startNode kind)).2.parts = ts := hts
  exact ⟨[.node kind ts], by rw [← hts]; rfl, .leadNode hb⟩

/-- The trivia in front of a node are placed before it is read. -/
theorem node {Q : Outlook → Prop} (kind : NodeKind) (h : Yields Q r good f) (hP : ∀ o, P o → Q o.placed) :
    Yields P (Grammar.node kind r) good (.node kind f) := by
  intro c hp hg
  obtain ⟨ts, hts, hb⟩ := h.leadNode kind c.placeTrivia (outlook_placeTrivia c ▸ hP _ hp) hg
  rw [show c.placeTrivia.outlook = _ from outlook_placeTrivia c] at hb
  cases hb with
  | leadNode hb => exact ⟨_, by rw [parts_placeTrivia, List.append_assoc] at hts; exact hts, .node hb⟩

end Yields

/-! ## What is added in any case -/

namespace Adds

variable {C : NodeKind × List Tree → Prop} {r : Rule α}

/-- A rule that leaves the parts as they are adds nothing. -/
theorem of_parts (h : ∀ c, (r c).2.parts = c.parts) : Adds r C :=
  fun c => ⟨[], by rw [h, List.append_nil], List.forall_mem_nil _⟩

theorem pure (a : α) : Adds (pure a : Rule α) C := of_parts fun _ => rfl

/-- Looking adds nothing. -/
theorem of_keeps {A : α → Outlook → Prop} (h : Keeps r A) : Adds r C := of_parts fun c => congrArg Reading.parts (h c).1

theorem bind {x : Rule α} {k : α → Rule β} (hx : Adds x C) (hk : ∀ a, Adds (k a) C) : Adds (x >>= k) C := by
  intro c
  obtain ⟨ts, hts, hall⟩ := hx c
  obtain ⟨us, hus, hall'⟩ := hk (x c).1 (x c).2
  refine ⟨ts ++ us, by rw [bind_run, hus, hts, List.append_assoc], ?_⟩
  rw [Tree.constructs_append]
  exact List.forall_mem_append.mpr ⟨hall, hall'⟩

theorem ite {b : Bool} {x y : Rule α} (hx : Adds x C) (hy : Adds y C) : Adds (if b = true then x else y) C := by
  cases b with
  | true => exact hx
  | false => exact hy

/-- A lexeme is no construct. -/
theorem advance {x : Rule Unit} {record : Token → Token} (hx : ∀ c, x c = ((), c.advance record)) : Adds x C := by
  intro c
  rw [hx]
  cases ha : c.ahead with
  | nil =>
    refine ⟨[], ?_, List.forall_mem_nil _⟩
    rw [Cursor.advance, ha, List.append_nil]
    rfl
  | cons l ls =>
    refine ⟨leavesFor l.lead ++ [.leaf (record l.token)], ?_, by simp⟩
    rw [advance_past record ha]
    rfl

theorem take : Adds take C := advance fun _ => rfl

theorem takeKeyword : Adds takeKeyword C := advance fun _ => rfl

theorem accept (kind : TokenKind) : Adds (accept kind) C :=
  bind (of_keeps (sees_head kind)) fun _ => ite (bind take fun _ => pure true) (pure false)

/-- A report is none either. -/
theorem addReport {x : Rule Unit} {place : Cursor → Nat} {report : Cursor → Diagnostic}
    (hx : ∀ c, x c = ((), c.addReport (place c) (report c))) : Adds x C := by
  refine of_parts fun c => ?_
  rw [hx, Cursor.addReport]
  split <;> rfl

theorem reportNext (kind : DiagnosticKind) (detail : Option String) : Adds (reportNext kind detail) C :=
  bind (of_keeps lookPast_looks.keeps) fun _ => addReport fun _ => rfl

/-- A node is one construct, whatever is in it. -/
theorem node (kind : NodeKind) (r : Rule α) (h : ∀ us, C (kind, us)) : Adds (Grammar.node kind r) C := by
  intro c
  refine ⟨leavesFor c.outlook.trivia ++ [.node kind (r (c.placeTrivia.startNode kind)).2.parts], ?_, by simpa using h _⟩
  rw [← List.append_assoc, ← parts_placeTrivia]
  rfl

end Adds

end QueryStubs.Grammar
