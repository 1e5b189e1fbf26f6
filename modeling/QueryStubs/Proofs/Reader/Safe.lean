import QueryStubs.Proofs.Reader.Aligned
import QueryStubs.Proofs.Reader.Run

/-!
# Safe rules

`Safe n P r Q` says that the rule `r` never goes wrong: from every cursor whose outlook satisfies `P` and which may look ahead `n`
times more, `r` makes allowed moves only and ends with an outlook that satisfies `Q`. The number bounds the looks that are made
before the first lexeme is taken and after the last one, so that it adds up when rules follow one another (`Safe.bind`) and at most
doubles in a loop (`Safe.repeatRule`), however long the loop runs: each round takes a lexeme and with it restores the patience.
-/

namespace QueryStubs.Grammar

open QueryStubs

/-- What a rule can go by: the lexemes ahead, the trivia behind them and the place reached. -/
structure Outlook where
  ahead : List Lexeme
  tail : List Token
  reached : Nat

/-- The outlook of a reading. -/
def Reading.outlook (s : Reading) : Outlook := ⟨s.ahead, s.tail, s.reached⟩

namespace Outlook

/-- The outlook after the trivia in front of the next lexeme were placed. -/
def placed : Outlook → Outlook
  | ⟨[], _, reached⟩ => ⟨[], [], reached⟩
  | ⟨l :: ls, tail, reached⟩ => ⟨l.bare :: ls, tail, reached⟩

/-- The lexeme `i` places ahead is of a kind. -/
def KindAt (i : Nat) (kind : TokenKind) (o : Outlook) : Prop := o.ahead[i]?.map (·.kind) = some kind

/-- The lexeme `i` places ahead is a word. -/
def WordAt (i : Nat) (word : String) (o : Outlook) : Prop := o.ahead[i]?.any (·.isWord word) = true

/-- The lexeme `i` places ahead is of a kind and touches the one before it. -/
def TouchingAt (i : Nat) (kind : TokenKind) (o : Outlook) : Prop :=
  o.ahead[i]?.any (fun l => l.touches && l.kind = kind) = true

/-- What is ahead starts outside every string literal. -/
def Aligned (o : Outlook) : Prop := Grammar.Aligned o.ahead

/-- What is ahead may start inside a string literal. -/
def Within (o : Outlook) : Prop := Grammar.Within o.ahead

/-- The brackets at some ranges were passed. -/
def Past (spans : List Span) (o : Outlook) : Prop := ∀ s ∈ spans, s.Forward ∧ s.start ≤ o.reached

end Outlook

/-- The trivia that come next. -/
def Outlook.trivia : Outlook → List Token
  | ⟨[], tail, _⟩ => tail
  | ⟨l :: _, _, _⟩ => l.lead

/-- No trivia come next once they were placed. -/
@[simp] theorem Outlook.trivia_placed (o : Outlook) : o.placed.trivia = [] := by
  obtain ⟨_ | ⟨l, ls⟩, tail, reached⟩ := o <;> rfl

/-- A lexeme is left. -/
def Outlook.Goes (o : Outlook) : Prop := o.ahead ≠ []

/-- A lexeme is left where one of some kind is ahead. -/
theorem Outlook.KindAt.goes {i : Nat} {kind : TokenKind} {o : Outlook} (h : o.KindAt i kind) : o.Goes := fun hn => by
  simp [KindAt, hn] at h

/-- A lexeme is left where a word is ahead. -/
theorem Outlook.WordAt.goes {i : Nat} {word : String} {o : Outlook} (h : o.WordAt i word) : o.Goes := fun hn => by
  simp [WordAt, hn] at h

/-- A lexeme is left where one that touches its neighbour is ahead. -/
theorem Outlook.TouchingAt.goes {i : Nat} {kind : TokenKind} {o : Outlook} (h : o.TouchingAt i kind) : o.Goes := fun hn => by
  simp [TouchingAt, hn] at h

/-- Where the trivia are placed, what is left stays left. -/
theorem Outlook.Goes.placed {o : Outlook} (h : o.Goes) : o.placed.Goes := by
  obtain ⟨_ | ⟨l, ls⟩, tail, reached⟩ := o
  · exact absurd rfl h
  · exact List.cons_ne_nil _ _

/-- At most `n` looks were paid for between two cursors, not counting those that a taken lexeme made good. -/
def Spent (n : Nat) (c d : Cursor) : Prop :=
  c.patience ≤ d.patience + n ∧ (d.ahead.length < c.ahead.length → fullPatience ≤ d.patience + n)

/-- From every cursor that `P` holds of and that has `n` looks left, the rule makes allowed moves only, and then `Q` holds. -/
def Safe (n : Nat) (P : Outlook → Prop) (r : Rule α) (Q : α → Outlook → Prop) : Prop :=
  ∀ c : Cursor, c.Ordered → P c.outlook → n ≤ c.patience → c.patience ≤ fullPatience →
    Run c (r c).2 ∧ Spent n c (r c).2 ∧ Q (r c).1 (r c).2.outlook

/-- No looks are paid for where nothing is done. -/
theorem Spent.refl (n : Nat) (c : Cursor) : Spent n c c :=
  ⟨Nat.le_add_right _ _, fun h => absurd h (Nat.lt_irrefl _)⟩

/-- The looks of one stretch and of the next add up. -/
theorem Spent.trans {n m : Nat} {c d e : Cursor} (h : Spent n c d) (h' : Spent m d e) : Spent (n + m) c e := by
  obtain ⟨h1, h2⟩ := h
  obtain ⟨h1', h2'⟩ := h'
  refine ⟨by omega, fun hlt => ?_⟩
  by_cases hd : d.ahead.length < c.ahead.length
  · have := h2 hd
    omega
  · have := h2' (by omega)
    omega

/-- A bound on the looks can be raised. -/
theorem Spent.mono {n m : Nat} {c d : Cursor} (h : Spent n c d) (hn : n ≤ m) : Spent m c d := by
  obtain ⟨h1, h2⟩ := h
  refine ⟨by omega, fun hlt => ?_⟩
  have := h2 hlt
  omega

namespace Safe

variable {n m k : Nat} {P P' : Outlook → Prop}

/-- Less may be assumed and more promised, and the bound may be lowered. -/
theorem imp {r : Rule α} {Q Q' : α → Outlook → Prop} (h : Safe n P r Q) (hn : n ≤ m) (hP : ∀ o, P' o → P o)
    (hQ : ∀ a o, Q a o → Q' a o) : Safe m P' r Q' := by
  intro c ho hp hm hf
  obtain ⟨hr, hs, hq⟩ := h c ho (hP _ hp) (Nat.le_trans hn hm) hf
  exact ⟨hr, hs.mono hn, hQ _ _ hq⟩

/-- The bound may be raised. -/
theorem mono {r : Rule α} {Q : α → Outlook → Prop} (h : Safe n P r Q) (hn : n ≤ m) : Safe m P r Q :=
  h.imp hn (fun _ hp => hp) (fun _ _ hq => hq)

/-- More may be assumed. -/
theorem of_imp {r : Rule α} {Q : α → Outlook → Prop} (h : Safe n P r Q) (hP : ∀ o, P' o → P o) : Safe n P' r Q :=
  h.imp (Nat.le_refl n) hP (fun _ _ hq => hq)

/-- What is known whatever the outlook can be used once for all. -/
theorem of_fact {fact : Prop} {r : Rule α} {Q : α → Outlook → Prop} (h : fact → Safe n P r Q) :
    Safe n (fun o => fact ∧ P o) r Q :=
  fun c ho hp hn hf => h hp.1 c ho hp.2 hn hf

/-- Brackets that were passed stay passed. -/
theorem past {r : Rule α} {Q : α → Outlook → Prop} (h : Safe n P r Q) (spans : List Span) :
    Safe n (fun o => P o ∧ o.Past spans) r fun a o => Q a o ∧ o.Past spans := by
  intro c ho hp hn hf
  obtain ⟨hr, hs, hq⟩ := h c ho hp.1 hn hf
  exact ⟨hr, hs, hq, fun s hs => ⟨(hp.2 s hs).1, Nat.le_trans (hp.2 s hs).2 (hr.ordered ho).2⟩⟩

/-- What is safe whatever is left is safe. -/
theorem of_length {r : Rule α} {Q : α → Outlook → Prop} (h : ∀ k, Safe n (fun o => P o ∧ o.ahead.length = k) r Q) :
    Safe n P r Q :=
  fun c ho hp hn hf => h _ c ho ⟨hp, rfl⟩ hn hf

/-- What is ahead stays as short as it is. -/
theorem short {r : Rule α} {Q : α → Outlook → Prop} (h : Safe n P r Q) (k : Nat) :
    Safe n (fun o => P o ∧ o.ahead.length < k) r fun a o => Q a o ∧ o.ahead.length < k := by
  intro c ho hp hn hf
  obtain ⟨hr, hs, hq⟩ := h c ho hp.1 hn hf
  exact ⟨hr, hs, hq, Nat.lt_of_le_of_lt hr.length_ahead_le hp.2⟩

/-- A rule that takes a lexeme takes the next one. -/
theorem head {r : Rule α} {Q : α → Outlook → Prop} {k : Nat} (span : Span)
    (h : Safe n (fun o => P o ∧ o.ahead.length = k) r fun a o => Q a o ∧ o.ahead.length < k) :
    Safe n (fun o => (P o ∧ o.ahead.length = k) ∧ ∃ l ls, o.ahead = l :: ls ∧ l.span = span) r
      fun a o => (Q a o ∧ o.ahead.length < k) ∧ span.stop ≤ o.reached := by
  intro c ho ⟨hp, l, ls, ha, hl⟩ hn hf
  obtain ⟨hr, hs, hq⟩ := h c ho hp hn hf
  have ha : c.ahead = l :: ls := ha
  refine ⟨hr, hs, hq, ?_⟩
  rcases hr.head ho ha with ⟨l', hl', -⟩ | hle
  · have hlt : (r c).2.ahead.length < k := hq.2
    have hk : c.ahead.length = k := hp.2
    simp [ha, hl'] at hlt hk
    omega
  · exact hl ▸ hle

/-- Giving a result does nothing. -/
theorem pure (n : Nat) (a : α) {Q : α → Outlook → Prop} (h : ∀ o, P o → Q a o) : Safe n P (pure a : Rule α) Q :=
  fun c _ hp _ _ => ⟨.refl c, .refl n c, h _ hp⟩

/-- One rule after another, which may depend on what the first one gave. -/
theorem bind (n m : Nat) {x : Rule α} {f : α → Rule β} {Q : α → Outlook → Prop} {R : β → Outlook → Prop}
    (hx : Safe n P x Q) (hf : ∀ a, Safe m (Q a) (f a) R) : Safe (n + m) P (x >>= f) R := by
  intro c ho hp hn hfull
  obtain ⟨hr, hs, hq⟩ := hx c ho hp (by omega) hfull
  obtain ⟨hr', hs', hq'⟩ := hf _ _ (hr.ordered ho).1 hq (by have := hs.1; omega) (hr.patience_le hfull)
  exact ⟨hr.trans hr', hs.trans hs', hq'⟩

/-- What the rule ahead of both branches found is known in each of them. -/
theorem ite {b : Bool} {x y : Rule α} {Q : α → Outlook → Prop} (hx : b = true → Safe n P x Q)
    (hy : b = false → Safe n P y Q) : Safe n P (if b = true then x else y) Q := by
  cases b with
  | true => exact hx rfl
  | false => exact hy rfl

/-- A look decides between two rules, and each of them may count on what the look found. -/
theorem test (n m : Nat) {t : Rule Bool} {T : Outlook → Prop} {x y : Rule α} {Q : α → Outlook → Prop}
    (ht : Safe n P t fun b o => P o ∧ (b = true ↔ T o)) (hx : Safe m (fun o => P o ∧ T o) x Q)
    (hy : Safe m (fun o => P o ∧ ¬T o) y Q) :
    Safe (n + m) P (t >>= fun b => if b = true then x else y) Q :=
  bind n m ht fun _ => ite (fun hb => hx.of_imp fun _ h => ⟨h.1, h.2.mp hb⟩)
    (fun hb => hy.of_imp fun _ h => ⟨h.1, fun hT => by simp [h.2.mpr hT] at hb⟩)

end Safe

variable {P : Outlook → Prop}

/-! ## Looking ahead -/

/-- A rule that only looks: it makes at most `n` looks, changes nothing else, and `A` tells what it found. -/
def Looks (n : Nat) (x : Rule α) (A : α → Outlook → Prop) : Prop :=
  ∀ c : Cursor, (x c).2.toReading = c.toReading ∧ A (x c).1 c.outlook ∧ (x c).2.patience ≤ c.patience ∧
    (n ≤ c.patience → (x c).2.defects = c.defects ∧ c.patience ≤ (x c).2.patience + n)

/-- Making several looks is a run. -/
theorem Run.looks (c : Cursor) {k : Nat} (hk : k ≤ c.patience) : Run c { c with patience := c.patience - k } := by
  induction k with
  | zero => exact .refl c
  | succ k ih =>
    have h := (ih (by omega)).look (by simp only; omega)
    simpa only [Nat.sub_sub] using h

namespace Looks

variable {n m : Nat} {x : Rule α} {A : α → Outlook → Prop}

/-- Looking is safe. -/
theorem safe (h : Looks n x A) : Safe n P x fun a o => P o ∧ A a o := by
  intro c _ hp hn _
  obtain ⟨hr, ha, hle, hs⟩ := h c
  obtain ⟨hd, hs⟩ := hs hn
  generalize (x c).1 = a at ha
  generalize (x c).2 = d at hr hle hd hs
  obtain ⟨s, patience, defects, builder⟩ := d
  simp only at hr hle hd hs
  subst hr hd
  have hrun := Run.looks c (Nat.sub_le c.patience patience)
  rw [Nat.sub_sub_self hle] at hrun
  exact ⟨hrun.build builder, ⟨hs, fun h => absurd h (Nat.lt_irrefl _)⟩, hp, ha⟩

/-- More looks may be allowed and less be told. -/
theorem imp {B : α → Outlook → Prop} (h : Looks n x A) (hn : n ≤ m) (hB : ∀ a o, A a o → B a o) : Looks m x B := by
  intro c
  obtain ⟨hr, ha, hle, hs⟩ := h c
  refine ⟨hr, hB _ _ ha, hle, fun hm => ?_⟩
  obtain ⟨hd, hs⟩ := hs (Nat.le_trans hn hm)
  exact ⟨hd, by omega⟩

/-- To answer one need not look. -/
theorem pure (n : Nat) (a : α) (h : ∀ o, A a o) : Looks n (pure a) A :=
  fun _ => ⟨rfl, h _, Nat.le_refl _, fun _ => ⟨rfl, Nat.le_add_right _ _⟩⟩

/-- Looks add up, and what the first found is known when the second is told about. -/
theorem bind (n m : Nat) {f : α → Rule β} {B : β → Outlook → Prop} (hx : Looks n x A)
    (hf : ∀ a, Looks m (f a) fun b o => A a o → B b o) : Looks (n + m) (x >>= f) B := by
  intro c
  obtain ⟨hr, ha, hle, hs⟩ := hx c
  obtain ⟨hr', hb, hle', hs'⟩ := hf (x c).1 (x c).2
  have ho : (x c).2.outlook = c.outlook := congrArg Reading.outlook hr
  refine ⟨hr'.trans hr, hb (ho ▸ ha) |> fun h => ho ▸ h, Nat.le_trans hle' hle, fun hn => ?_⟩
  obtain ⟨hd, hs⟩ := hs (by omega)
  obtain ⟨hd', hs'⟩ := hs' (by omega)
  exact ⟨hd'.trans hd, by change c.patience ≤ (f (x c).1 (x c).2).2.patience + (n + m); omega⟩

/-- A choice looks as far as both branches do. -/
theorem ite {b : Bool} {y : Rule α} (hx : b = true → Looks n x A) (hy : b = false → Looks n y A) :
    Looks n (if b = true then x else y) A := by
  cases b with
  | true => exact hx rfl
  | false => exact hy rfl

/-- A rule can be written in another way. -/
theorem of_eq {y : Rule α} (h : x = y) (hy : Looks n y A) : Looks n x A := h ▸ hy

/-- What a look found can be put in another form. -/
theorem map {g : α → β} {B : β → Outlook → Prop} (h : Looks n x A) (hB : ∀ a o, A a o → B (g a) o) :
    Looks n (x >>= fun a => Pure.pure (g a)) B :=
  bind n 0 h fun a => pure 0 _ fun o => hB a o

end Looks

/-- What is done to the tree that is put together changes nothing else. -/
theorem build_looks (build : Cursor → Builder) : Looks 0 (modify fun c => { c with builder := build c }) fun _ _ => True :=
  fun _ => ⟨rfl, trivial, Nat.le_refl _, fun _ => ⟨rfl, Nat.le_refl _⟩⟩

/-- To look past trivia changes nothing else. -/
theorem lookPast_looks : Looks 0 lookPast fun _ _ => True := build_looks _

/-- A look costs patience only. -/
theorem spend_looks (i : Nat) : Looks 1 (spend >>= fun _ => get >>= fun c => pure c.ahead[i]?) fun a o => a = o.ahead[i]? := by
  intro c
  have he : (spend >>= fun _ => get >>= fun c => pure c.ahead[i]?) c = ((c.demand (0 < c.patience) .stuck).ahead[i]?,
      { c.demand (0 < c.patience) .stuck with patience := c.patience - 1 }) := rfl
  rw [he, Cursor.demand]
  split
  · exact ⟨rfl, rfl, Nat.sub_le _ _, fun _ => ⟨rfl, by simp only; omega⟩⟩
  · next h => exact ⟨rfl, rfl, Nat.sub_le _ _, fun hn => absurd (decide_eq_true hn) h⟩

/-- One look finds the lexeme at its place, if there is one. -/
theorem peek_looks (i : Nat) : Looks 1 (peek i) fun a o => a = o.ahead[i]? :=
  .bind 0 1 lookPast_looks fun _ => (spend_looks i).imp (Nat.le_refl 1) fun _ _ h _ => h

/-- It does so without looking past trivia. -/
theorem peekRaw_looks (i : Nat) : Looks 1 (peekRaw i) fun a o => a = o.ahead[i]? :=
  .bind 0 1 (build_looks _) fun _ => (spend_looks i).imp (Nat.le_refl 1) fun _ _ h _ => h

/-- One look finds the kind of the next lexeme. -/
theorem nextKind_looks : Looks 1 nextKind fun a o => a = o.ahead[0]?.map (·.kind) :=
  (peek_looks 0).map fun _ _ h => by rw [h]

/-- One look decides whether a lexeme is of a kind. -/
theorem seesAt_looks (i : Nat) (kind : TokenKind) : Looks 1 (seesAt i kind) fun b o => b = true ↔ o.KindAt i kind :=
  (peek_looks i).map fun _ _ h => by simp [h, Outlook.KindAt]

/-- One look decides whether the next lexeme is of a kind. -/
theorem sees_looks (kind : TokenKind) : Looks 1 (sees kind) fun b o => b = true ↔ o.KindAt 0 kind :=
  nextKind_looks.map fun _ _ h => by simp [h, Outlook.KindAt]

/-- One look decides whether a lexeme of a kind touches the one before it. -/
theorem seesTouching_looks (i : Nat) (kind : TokenKind) :
    Looks 1 (seesTouching i kind) fun b o => b = true ↔ o.TouchingAt i kind :=
  (peekRaw_looks i).map fun _ _ h => by rw [h]; rfl

/-- One look decides whether a lexeme is a word. -/
theorem seesWordAt_looks (i : Nat) (word : String) : Looks 1 (seesWordAt i word) fun b o => b = true ↔ o.WordAt i word :=
  (peek_looks i).map fun _ _ h => by rw [h]; rfl

/-- One look finds the text of a name. -/
theorem wordAt?_looks (i : Nat) :
    Looks 1 (wordAt? i) fun a o => a = (o.ahead[i]?.filter (·.kind = .name)).map (·.token.text) :=
  (peek_looks i).map fun _ _ h => by rw [h]

/-- To ask for the state is no look. -/
theorem get_looks : Looks 0 get fun c o => c.outlook = o :=
  fun _ => ⟨rfl, rfl, Nat.le_refl _, fun _ => ⟨rfl, Nat.le_refl _⟩⟩

/-- To ask whether anything is left is no look. -/
theorem atEnd_looks : Looks 0 atEnd fun b o => b = true ↔ o.ahead = [] :=
  .bind 0 0 (build_looks _) fun _ => get_looks.map fun c o h _ => by rw [← h]; exact List.isEmpty_iff

/-- To ask for the text of the next lexeme is no look. -/
theorem nextText_looks : Looks 0 nextText fun a o => ∀ l ls, o.ahead = l :: ls → a = l.token.text := by
  refine Looks.bind 0 0 lookPast_looks fun _ => Looks.bind 0 0 get_looks fun c => ?_
  split
  · next h => exact Looks.pure 0 _ fun o ho _ l ls hl => by simp [← ho, Reading.outlook, h] at hl
  · next h => exact Looks.pure 0 _ fun o ho _ l ls hl => by simp_all [← ho, Reading.outlook]

/-- To ask for the range of the next lexeme is no look. -/
theorem nextSpan_looks : Looks 0 nextSpan fun a o => ∀ l ls, o.ahead = l :: ls → a = l.span :=
  .bind 0 0 lookPast_looks fun _ => get_looks.map fun c o h _ l ls hl => by
    have ha : c.ahead = l :: ls := (congrArg Outlook.ahead h).trans hl
    rw [Cursor.nextSpan, ha]

/-- The range of what comes next lies behind the place reached and does not end before it starts. -/
theorem nextSpan_ordered {c : Cursor} (h : c.Ordered) : c.reached ≤ c.nextSpan.start ∧ c.nextSpan.Forward := by
  unfold Reading.Ordered at h
  unfold Cursor.nextSpan
  cases ha : c.ahead with
  | nil =>
    rw [ha] at h
    exact ⟨h, Nat.le_refl _⟩
  | cons l ls =>
    rw [ha] at h
    exact ⟨h.1, Nat.le_of_lt h.2.1⟩

/-- The range of the next lexeme runs forward, and so does the empty one at the end of the source. -/
theorem nextSpan_safe :
    Safe 0 P nextSpan fun a o => P o ∧ a.Forward ∧ ∀ l ls, o.ahead = l :: ls → a = l.span := by
  intro c ho hp hn hf
  obtain ⟨hr, hs, hq, hl⟩ := nextSpan_looks.safe c ho hp hn hf
  exact ⟨hr, hs, hq, (nextSpan_ordered ho).2, hl⟩

/-- A condition that holds anyway notes no defect. -/
theorem demand_safe {condition : Bool} (defect : Defect) (h : ∀ o, P o → condition = true) :
    Safe 0 P (demand condition defect) fun _ => P := by
  intro c _ hp _ _
  have he : demand condition defect c = ((), c.demand condition defect) := rfl
  rw [he, Cursor.demand, if_pos (h _ hp)]
  exact ⟨.refl c, .refl 0 c, hp⟩

/-! ## Taking lexemes and building nodes -/

/-- Moving past a lexeme restores the patience. -/
theorem advance_safe {record : Token → Token} {r : Rule Unit} {Q : Unit → Outlook → Prop}
    (hr : ∀ c, r c = ((), c.advance record)) :
    Safe 0 (fun o => ∃ l ls, o.ahead = l :: ls ∧ l.token.Recorded (record l.token) ∧ Q () ⟨ls, o.tail, l.span.stop⟩) r Q := by
  intro c _ hp _ hf
  obtain ⟨l, ls, ha, ht, hq⟩ := hp
  have ha : c.ahead = l :: ls := ha
  rw [hr]
  refine ⟨Run.advance record ha ht, ?_, ?_⟩
  · simp only [Cursor.advance, ha]
    exact ⟨hf, fun _ => Nat.le_refl _⟩
  · simpa only [Reading.outlook, Cursor.advance, ha] using hq

/-- A lexeme may be taken where one is left. -/
theorem take_safe {Q : Unit → Outlook → Prop} :
    Safe 0 (fun o => ∃ l ls, o.ahead = l :: ls ∧ Q () ⟨ls, o.tail, l.span.stop⟩) take Q :=
  (advance_safe fun _ => rfl).of_imp fun _ ⟨l, ls, ha, hq⟩ => ⟨l, ls, ha, .inl rfl, hq⟩

/-- A keyword may be taken where a name is left. -/
theorem takeKeyword_safe {Q : Unit → Outlook → Prop} :
    Safe 0 (fun o => ∃ l ls, o.ahead = l :: ls ∧ l.kind = .name ∧ Q () ⟨ls, o.tail, l.span.stop⟩) takeKeyword Q :=
  (advance_safe fun _ => rfl).of_imp fun _ ⟨l, ls, ha, hk, hq⟩ => ⟨l, ls, ha, .inr ⟨hk, rfl⟩, hq⟩

/-- In a node that was just started there are no parts yet. -/
@[simp] theorem Cursor.toReading_startNode (c : Cursor) (kind : NodeKind) :
    (c.startNode kind).toReading = { c.toReading with parts := [] } := rfl

/-- Reading the inside of a node is a move of its own. -/
theorem nodeWithLead_safe {n : Nat} (kind : NodeKind) {r : Rule α} {Q : α → Outlook → Prop} (h : Safe n P r Q) :
    Safe n P (nodeWithLead kind r) Q := by
  intro c ho hp hn hf
  obtain ⟨hr, hs, hq⟩ := h (c.startNode kind) ho hp hn hf
  exact ⟨(((Run.refl c).build (c.builder.start kind)).node kind hr).build _, hs, hq⟩

/-- The outlook after the trivia that come next were placed. -/
theorem outlook_placeTrivia (c : Cursor) : c.placeTrivia.outlook = c.outlook.placed := by
  unfold Reading.outlook Cursor.placeTrivia
  cases c.ahead <;> rfl

/-- Trivia may be placed anywhere. -/
theorem placeTrivia_safe {Q : Unit → Outlook → Prop} : Safe 0 (fun o => Q () o.placed) placeTrivia Q := by
  intro c _ hq _ _
  have hl : c.placeTrivia.ahead.length = c.ahead.length := by
    unfold Cursor.placeTrivia
    cases c.ahead <;> rfl
  refine ⟨(Run.refl c).placeTrivia, ⟨Nat.le_refl _, fun h => ?_⟩, ?_⟩
  · have h : c.placeTrivia.ahead.length < c.ahead.length := h
    omega
  · change Q () c.placeTrivia.outlook
    rw [outlook_placeTrivia]
    exact hq

/-- They may be placed at the end of a node, too. -/
theorem eatTrivia_safe {Q : Unit → Outlook → Prop} : Safe 0 (fun o => Q () o.placed) eatTrivia Q := by
  refine Safe.bind 0 0 lookPast_looks.safe fun _ => Safe.bind 0 0 (build_looks (·.builder.drain)).safe fun _ => ?_
  exact placeTrivia_safe.of_imp fun _ h => h.1.1

/-- A rule that is safe behind the trivia is safe as a node. -/
theorem node_safe {n : Nat} (kind : NodeKind) {r : Rule α} {Q : α → Outlook → Prop} {R : Outlook → Prop}
    (h : Safe n R r Q) (hP : ∀ o, P o → R o.placed) : Safe n P (node kind r) Q :=
  (Safe.bind 0 n (placeTrivia_safe (Q := fun _ => R)) fun _ => nodeWithLead_safe kind h).imp (Nat.le_of_eq (Nat.zero_add n)) hP
    fun _ _ hq => hq

/-! ## Reports -/

/-- Making a report changes neither the outlook nor the patience. -/
theorem addReport_frame (c : Cursor) (place : Nat) (report : Diagnostic) :
    (c.addReport place report).outlook = c.outlook ∧ (c.addReport place report).patience = c.patience := by
  unfold Cursor.addReport
  split <;> exact ⟨rfl, rfl⟩

/-- A rule that makes a report whose ranges do not end before they start is safe. -/
theorem addReport_safe {r : Rule Unit} (build : Cursor → Builder) (place : Cursor → Nat) (report : Cursor → Diagnostic)
    (hr : ∀ c, c.Ordered → P c.outlook → r c = ((), Cursor.addReport (place c) (report c) { c with builder := build c }))
    (hf : ∀ c, c.Ordered → P c.outlook → (report c).Forward) : Safe 0 P r fun _ => P := by
  intro c ho hp _ _
  obtain ⟨h1, h2⟩ := addReport_frame { c with builder := build c } (place c) (report c)
  have h3 : (Cursor.addReport (place c) (report c) { c with builder := build c }).ahead = c.ahead := congrArg Outlook.ahead h1
  rw [hr c ho hp]
  refine ⟨((Run.refl c).build (build c)).trans (.addReport _ _ (hf c ho hp)), ⟨by simp only [h2]; omega, fun h => ?_⟩, ?_⟩
  · simp only [h3, Nat.lt_irrefl] at h
  · simpa only [h1] using hp

/-- Anything may be reported at the next lexeme. -/
theorem reportNext_safe (kind : DiagnosticKind) (detail : Option String) : Safe 0 P (reportNext kind detail) fun _ => P :=
  addReport_safe (·.look.builder) (·.nextSpan.start) (fun c => ⟨kind, c.nextSpan, detail, []⟩) (fun _ _ _ => rfl) fun _ ho _ =>
    ⟨(nextSpan_ordered ho).2, List.forall_mem_nil _⟩

/-- It may be so with a text that says more. -/
theorem report_safe (kind : DiagnosticKind) (detail : String) : Safe 0 P (report kind detail) fun _ => P :=
  reportNext_safe kind (some detail)

/-- Anything may be reported at a range that runs forward. -/
theorem reportAt_safe (kind : DiagnosticKind) {span : Span} (detail : Option String) {related : List Related}
    (hs : span.Forward) (hr : ∀ r ∈ related, r.span.Forward) : Safe 0 P (reportAt kind span detail related) fun _ => P :=
  addReport_safe (·.builder) _ _ (fun _ _ _ => rfl) fun _ _ _ => ⟨hs, hr⟩

/-- A bracket that was passed starts before the end of what comes next. -/
theorem reportUnclosed_safe (kind : DiagnosticKind) (note : String) {opening : Span}
    (hP : ∀ o, P o → o.Past [opening]) : Safe 0 P (reportUnclosed kind note opening) fun _ => P := by
  have hopen : ∀ c : Cursor, P c.outlook → opening.Forward ∧ opening.start ≤ c.reached := fun c hp =>
    hP _ hp opening (List.mem_singleton.mpr rfl)
  have hle : ∀ c : Cursor, c.Ordered → P c.outlook → opening.start ≤ c.nextSpan.stop := by
    intro c ho hp
    obtain ⟨h1, h2⟩ := nextSpan_ordered ho
    exact Nat.le_trans (hopen c hp).2 (Nat.le_trans h1 h2)
  refine addReport_safe (·.look.builder) (fun c => c.nextSpan.start)
    (fun c => ⟨kind, ⟨opening.start, c.nextSpan.stop⟩, none, [⟨note, opening⟩]⟩) (fun c ho hp => ?_) fun c ho hp => ?_
  · have he : reportUnclosed kind note opening c =
        ((), (c.look.demand (opening.start ≤ c.nextSpan.stop) .reversedSpan).addReport c.nextSpan.start
          ⟨kind, ⟨opening.start, c.nextSpan.stop⟩, none, [⟨note, opening⟩]⟩) := rfl
    rw [he, Cursor.demand, if_pos (decide_eq_true (hle c ho hp))]
    rfl
  · exact ⟨hle c ho hp, by simpa using (hopen c hp).1⟩

/-! ## Loops -/

/-- A loop whose step takes a lexeme whenever it is to go on pays at most twice for a step: once in the round that ends it and once
for the looks after the last lexeme taken. -/
theorem repeatRule_safe {n : Nat} {step : σ → Rule (Bool × σ)} {I Q : σ → Outlook → Prop} (hn : n + n ≤ fullPatience)
    (h : ∀ a k, Safe n (fun o => I a o ∧ o.ahead.length = k) (step a) fun r o =>
      if r.1 = true then I r.2 o ∧ o.ahead.length < k else Q r.2 o) (a : σ) :
    Safe (n + n) (I a) (repeatRule step a) Q := by
  -- A round that goes on has taken a lexeme, so at most `n` looks are missing where the next one starts.
  have key : ∀ a (c : Cursor), c.Ordered → I a c.outlook → n ≤ c.patience → c.patience ≤ fullPatience →
      Run c (repeatRule step a c).2 ∧
        (Spent n c (repeatRule step a c).2 ∨ fullPatience ≤ (repeatRule step a c).2.patience + (n + n)) ∧
        Q (repeatRule step a c).1 (repeatRule step a c).2.outlook := by
    intro a c
    fun_induction repeatRule step a c with
    | case1 a c b d hs =>
      intro ho hi hp hf
      obtain ⟨hr, hsp, hq⟩ := h a _ c ho ⟨hi, rfl⟩ hp hf
      rw [hs] at hr hsp hq
      exact ⟨hr, .inl hsp, hq⟩
    | case2 a c b d hs hlt ih =>
      intro ho hi hp hf
      obtain ⟨hr, hsp, hq⟩ := h a _ c ho ⟨hi, rfl⟩ hp hf
      rw [hs] at hr hsp hq
      have hfull : fullPatience ≤ d.patience + n := hsp.2 hlt
      have hle : d.patience ≤ fullPatience := hr.patience_le hf
      obtain ⟨hr', hsp', hq'⟩ := ih (hr.ordered ho).1 hq.1 (by omega) hle
      refine ⟨hr.trans hr', .inr ?_, hq'⟩
      rcases hsp' with hsp' | hsp'
      · have := hsp'.1
        omega
      · exact hsp'
    | case3 a c b d hs hlt =>
      intro ho hi hp hf
      obtain ⟨-, -, hq⟩ := h a _ c ho ⟨hi, rfl⟩ hp hf
      rw [hs] at hq
      exact absurd hq.2 hlt
  intro c ho hi hp hf
  obtain ⟨hr, hs, hq⟩ := key a c ho hi (by omega) hf
  refine ⟨hr, ?_, hq⟩
  rcases hs with hs | hs
  · exact hs.mono (Nat.le_add_left n n)
  · exact ⟨Nat.le_trans hf hs, fun _ => hs⟩

end QueryStubs.Grammar
