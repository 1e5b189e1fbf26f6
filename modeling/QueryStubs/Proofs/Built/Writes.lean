import QueryStubs.Proofs.Reader.Safe

/-!
# What the builder comes to

A rule says of every node whether the trivia in front of it belong to it; the builder goes by whether they were looked past when the node
starts. `Writes P r Q` says that the two agree about all that the rule `r` reads, and that `r` finishes every node it starts. `P` and `Q` tell
of the start and of the end whether the trivia that come next were looked past, and what is ahead.

Where a rule asks whether anything is left, an end of the source behind trivia that were not looked past would not show. So a rule whose
answer is no has to end where it does (`Settled`), because a declaration that is not complete is skipped from there.
-/

namespace QueryStubs.Grammar

open QueryStubs

/-- The builder is where the cursor is: it has written the parts of the open construct, and in its buffer are the trivia that come next, if
they were looked past. Nothing was found wrong. -/
structure Cursor.Agrees (c : Cursor) : Prop where
  written : c.builder.written = c.parts
  buffer : c.builder.buffer = if c.builder.looked then c.nextTrivia else []
  faultless : c.builder.defects = []

/-- From every cursor that the builder agrees with and that `P` holds of the rule leads to another, where the same nodes are open and `Q`
holds. -/
def Writes (P : Bool → Outlook → Prop) (r : Rule α) (Q : α → Bool → Outlook → Prop) : Prop :=
  ∀ c : Cursor, c.Agrees → P c.builder.looked c.outlook →
    (r c).2.Agrees ∧ (r c).2.builder.opened = c.builder.opened ∧ Q (r c).1 (r c).2.builder.looked (r c).2.outlook

/-- Nothing is known. -/
def Anyhow (_ : Bool) (_ : Outlook) : Prop := True

/-- The trivia that come next were looked past. -/
def Looked (looked : Bool) (_ : Outlook) : Prop := looked = true

/-- The trivia that come next were not looked past. -/
def Fresh (looked : Bool) (_ : Outlook) : Prop := looked = false

/-- If nothing is left, that shows. -/
def Shows (looked : Bool) (o : Outlook) : Prop := looked = true ∨ o.ahead ≠ [] ∨ o.tail = []

/-- Where the answer is no, it shows whether anything is left. -/
def Settled (b : Bool) (looked : Bool) (o : Outlook) : Prop := b = false → Shows looked o

variable {P S : Bool → Outlook → Prop} {R : Outlook → Prop}

/-- The trivia that come next are those of the outlook. -/
theorem Cursor.nextTrivia_eq (c : Cursor) : c.nextTrivia = c.outlook.trivia := by
  unfold Cursor.nextTrivia Reading.outlook
  cases c.ahead <;> rfl

namespace Writes

/-- More may be assumed and less told. -/
theorem imp {r : Rule α} {Q Q' : α → Bool → Outlook → Prop} (h : Writes P r Q) (hP : ∀ b o, S b o → P b o)
    (hQ : ∀ a b o, Q a b o → Q' a b o) : Writes S r Q' := by
  intro c hc hp
  obtain ⟨ha, ho, hq⟩ := h c hc (hP _ _ hp)
  exact ⟨ha, ho, hQ _ _ _ hq⟩

/-- More may be assumed. -/
theorem of_imp {r : Rule α} {Q : α → Bool → Outlook → Prop} (h : Writes P r Q) (hP : ∀ b o, S b o → P b o) : Writes S r Q :=
  h.imp hP fun _ _ _ hq => hq

/-- What needs nothing known needs no more. -/
theorem anyhow {r : Rule α} {Q : α → Bool → Outlook → Prop} (h : Writes Anyhow r Q) : Writes P r Q := h.of_imp fun _ _ _ => trivial

/-- A rule that only answers writes nothing. -/
theorem pure (a : α) {Q : α → Bool → Outlook → Prop} (h : ∀ b o, P b o → Q a b o) : Writes P (pure a : Rule α) Q :=
  fun _ hc hp => ⟨hc, rfl, h _ _ hp⟩

/-- One rule after another. -/
theorem bind {x : Rule α} {f : α → Rule β} {Q : α → Bool → Outlook → Prop} {Q' : β → Bool → Outlook → Prop} (hx : Writes P x Q)
    (hf : ∀ a, Writes (Q a) (f a) Q') : Writes P (x >>= f) Q' := by
  intro c hc hp
  obtain ⟨ha, ho, hq⟩ := hx c hc hp
  obtain ⟨ha', ho', hq'⟩ := hf _ _ ha hq
  exact ⟨ha', ho'.trans ho, hq'⟩

/-- A choice. -/
theorem ite {b : Bool} {x y : Rule α} {Q : α → Bool → Outlook → Prop} (hx : b = true → Writes P x Q) (hy : b = false → Writes P y Q) :
    Writes P (if b = true then x else y) Q := by
  cases b with
  | true => exact hx rfl
  | false => exact hy rfl

/-- A rule and then, if its answer is yes, another one. -/
theorem andThen {x y : Rule Bool} (hx : Writes P x Settled) (hy : Writes Anyhow y Settled) :
    Writes P (x >>= fun b => if b = true then y else Pure.pure false) Settled :=
  hx.bind fun _ => ite (fun _ => hy.anyhow) fun hb => pure false fun _ _ h _ => h hb

/-- What leaves the builder and its place alone agrees with it. -/
theorem of_same {r : Rule α} (h : ∀ c, (r c).2.builder = c.builder ∧ (r c).2.parts = c.parts ∧ (r c).2.outlook = c.outlook) :
    Writes P r fun _ => P := by
  intro c hc hp
  obtain ⟨hb, hparts, ho⟩ := h c
  have htrivia : (r c).2.nextTrivia = c.nextTrivia := by rw [Cursor.nextTrivia_eq, Cursor.nextTrivia_eq, ho]
  exact ⟨⟨hb ▸ hparts ▸ hc.written, hb ▸ htrivia ▸ hc.buffer, hb ▸ hc.faultless⟩, congrArg _ hb, by rw [hb, ho]; exact hp⟩

end Writes

/-! ## Looking ahead -/

/-- Looking past trivia leaves the outlook. -/
theorem lookPast_writes : Writes (fun _ => R) lookPast fun _ b o => Looked b o ∧ R o := by
  intro c hc hr
  have hrun : (lookPast c).2.builder = c.builder.look c.nextTrivia := rfl
  have htrivia : (lookPast c).2.nextTrivia = c.nextTrivia := rfl
  cases hl : c.builder.looked with
  | true =>
    have hsame : (lookPast c).2.builder = c.builder := by rw [hrun, Builder.look, hl]; rfl
    refine ⟨⟨hsame ▸ hc.written, ?_, hsame ▸ hc.faultless⟩, congrArg _ hsame, hsame ▸ hl, hr⟩
    rw [hsame, htrivia]
    exact hc.buffer
  | false =>
    have hlook : (lookPast c).2.builder = { c.builder with buffer := c.builder.buffer ++ c.nextTrivia, looked := true } := by
      rw [hrun, Builder.look, hl]
      rfl
    have hempty : c.builder.buffer = [] := by rw [hc.buffer, hl]; rfl
    refine ⟨⟨hlook ▸ hc.written, ?_, hlook ▸ hc.faultless⟩, by rw [hlook], congrArg Builder.looked hlook, hr⟩
    rw [hlook, htrivia, hempty]
    rfl

/-- What is asked for with nothing in the way is no defect. -/
theorem demandSeen_writes {condition : Cursor → Bool} (h : ∀ c, P c.builder.looked c.outlook → condition c = true) :
    Writes P (demandSeen condition) fun _ => P := by
  intro c hc hp
  have hsame : (demandSeen condition c).2 = c := by
    change { c with builder := c.builder.demandSeen (condition c) } = c
    rw [Builder.demandSeen, h c hp]
    rfl
  rw [hsame]
  exact ⟨hc, rfl, hp⟩

/-- What a rule that only looks finds may be told together with what is told of where it ends. -/
theorem Looks.found {n : Nat} {x : Rule α} {A : α → Outlook → Prop} {Q : α → Bool → Outlook → Prop} (h : Looks n x A) (hx : Writes P x Q) :
    Writes P x fun a b o => Q a b o ∧ A a o := by
  intro c hc hp
  obtain ⟨ha, ho, hq⟩ := hx c hc hp
  obtain ⟨hsame, hfound, -⟩ := h c
  have houtlook : (x c).2.outlook = c.outlook := congrArg Reading.outlook hsame
  exact ⟨ha, ho, hq, houtlook ▸ hfound⟩

/-- A rule that only looks, and looks past the trivia that come next, finds what it finds without leaving its place. -/
theorem Looks.writes {n : Nat} {x : Rule α} {A : α → Outlook → Prop} (h : Looks n x A) (hx : Writes Anyhow x fun _ => Looked) :
    Writes (fun _ => R) x fun a b o => Looked b o ∧ R o ∧ A a o := by
  intro c hc hr
  obtain ⟨ha, ho, hl⟩ := hx c hc trivial
  obtain ⟨hsame, hfound, -⟩ := h c
  have houtlook : (x c).2.outlook = c.outlook := congrArg Reading.outlook hsame
  rw [houtlook]
  exact ⟨ha, ho, hl, hr, hfound⟩

/-- A defect that is recorded leaves the builder. -/
theorem Cursor.demand_builder (c : Cursor) (condition : Bool) (defect : Defect) :
    (c.demand condition defect).builder = c.builder ∧ (c.demand condition defect).parts = c.parts ∧
      (c.demand condition defect).outlook = c.outlook := by
  unfold Cursor.demand
  split <;> exact ⟨rfl, rfl, rfl⟩

/-- A look costs patience and leaves the builder. -/
theorem spend_writes (i : Nat) : Writes P (spend >>= fun _ => get >>= fun c => pure c.ahead[i]?) fun _ => P :=
  .of_same fun c => c.demand_builder (0 < c.patience) .stuck

/-- A look at a lexeme goes past the trivia that come next. -/
theorem peek_looked (i : Nat) : Writes P (peek i) fun _ => Looked :=
  ((lookPast_writes (R := fun _ => True)).of_imp fun _ _ _ => trivial).bind fun _ => (spend_writes i).imp (fun _ _ h => h) fun _ _ _ h => h.1

/-- So does a look at what is said of it. -/
theorem peek_map_looked (i : Nat) (g : Option Lexeme → α) : Writes P (peek i >>= fun l => pure (g l)) fun _ => Looked :=
  (peek_looked i).bind fun _ => .pure _ fun _ _ h => h

/-- The kind of the next lexeme is found behind the trivia. -/
theorem nextKind_writes : Writes (fun _ => R) nextKind fun a b o => Looked b o ∧ R o ∧ a = o.ahead[0]?.map (·.kind) :=
  nextKind_looks.writes (peek_map_looked 0 _)

/-- Whatever else is known, it is. -/
theorem nextKind_looked : Writes P nextKind fun a b o => Looked b o ∧ a = o.ahead[0]?.map (·.kind) :=
  (nextKind_writes (R := fun _ => True)).imp (fun _ _ _ => trivial) fun _ _ _ h => ⟨h.1, h.2.2⟩

/-- So is whether the next lexeme is of a kind. -/
theorem sees_writes (kind : TokenKind) : Writes (fun _ => R) (sees kind) fun b l o => Looked l o ∧ R o ∧ (b = true ↔ o.KindAt 0 kind) :=
  (sees_looks kind).writes (nextKind_writes.bind fun _ => .pure _ fun _ _ h => h.1)

/-- Whatever else is known, it is. -/
theorem sees_looked (kind : TokenKind) : Writes P (sees kind) fun b l o => Looked l o ∧ (b = true ↔ o.KindAt 0 kind) :=
  (sees_writes (R := fun _ => True) kind).imp (fun _ _ _ => trivial) fun _ _ _ h => ⟨h.1, h.2.2⟩

/-- So is whether a lexeme further ahead is. -/
theorem seesAt_writes (i : Nat) (kind : TokenKind) :
    Writes (fun _ => R) (seesAt i kind) fun b l o => Looked l o ∧ R o ∧ (b = true ↔ o.KindAt i kind) :=
  (seesAt_looks i kind).writes (peek_map_looked i _)

/-- So is whether a lexeme is a word. -/
theorem seesWordAt_writes (i : Nat) (word : String) :
    Writes (fun _ => R) (seesWordAt i word) fun b l o => Looked l o ∧ R o ∧ (b = true ↔ o.WordAt i word) :=
  (seesWordAt_looks i word).writes (peek_map_looked i _)

/-- Whatever else is known, so is whether the next one is. -/
theorem seesWord_looked (word : String) : Writes P (seesWord word) fun b l o => Looked l o ∧ (b = true ↔ o.WordAt 0 word) :=
  (seesWordAt_writes (R := fun _ => True) 0 word).imp (fun _ _ _ => trivial) fun _ _ _ h => ⟨h.1, h.2.2⟩

/-- So is the text of a name. -/
theorem wordAt?_writes (i : Nat) :
    Writes (fun _ => R) (wordAt? i) fun a b o => Looked b o ∧ R o ∧ a = (o.ahead[i]?.filter (·.kind = .name)).map (·.token.text) :=
  (wordAt?_looks i).writes (peek_map_looked i _)

/-- To ask for the state leaves it. -/
theorem get_writes : Writes P get fun _ => P := .of_same fun _ => ⟨rfl, rfl, rfl⟩

/-- The range of the next lexeme is found behind the trivia. -/
theorem nextSpan_writes : Writes (fun _ => R) nextSpan fun _ b o => Looked b o ∧ R o :=
  lookPast_writes.bind fun _ => get_writes.bind fun _ => .pure _ fun _ _ h => h

/-- Whatever else is known, it is. -/
theorem nextSpan_looked : Writes P nextSpan fun _ => Looked :=
  (nextSpan_writes (R := fun _ => True)).imp (fun _ _ _ => trivial) fun _ _ _ h => h.1

/-- So is its text. -/
theorem nextText_writes : Writes (fun _ => R) nextText fun _ b o => Looked b o ∧ R o := by
  refine lookPast_writes.bind fun _ => get_writes.bind fun c => ?_
  split <;> exact .pure _ fun _ _ h => h

/-- Whatever else is known, it is. -/
theorem nextText_looked : Writes P nextText fun _ => Looked :=
  (nextText_writes (R := fun _ => True)).imp (fun _ _ _ => trivial) fun _ _ _ h => h.1

/-- A lexeme may be looked at without looking past trivia where tokens are counted from the right one. -/
theorem peekRaw_writes (i : Nat) (h : ∀ c : Cursor, P c.builder.looked c.outlook →
    (if i = 0 then c.countsFromLast else c.countsFromNext) = true) : Writes P (peekRaw i) fun a l o => P l o ∧ a = o.ahead[i]? := by
  have hcounts : ∀ c : Cursor, P c.builder.looked c.outlook → (if i = 0 then Cursor.countsFromLast else Cursor.countsFromNext) c = true := by
    intro c hc
    rw [← h c hc]
    split <;> rfl
  have hkeep : Writes P (peekRaw i) fun _ => P := (demandSeen_writes hcounts).bind fun _ => spend_writes i
  exact (peekRaw_looks i).found hkeep

/-- So may whether it touches the one before it. -/
theorem seesTouching_writes (i : Nat) (kind : TokenKind) (h : ∀ c : Cursor, P c.builder.looked c.outlook →
    (if i = 0 then c.countsFromLast else c.countsFromNext) = true) :
    Writes P (seesTouching i kind) fun b l o => P l o ∧ (b = true → o.TouchingAt i kind) := by
  refine (peekRaw_writes i h).bind fun l => .pure _ fun b o hl => ⟨hl.1, fun ht => ?_⟩
  rw [Outlook.TouchingAt, ← hl.2]
  exact ht

/-- Whether anything is left may be asked where it shows. -/
theorem atEnd_writes (h : ∀ b o, P b o → Shows b o) : Writes P atEnd fun b l o => P l o ∧ (b = true ↔ o.ahead = []) := by
  have hshows : ∀ c : Cursor, P c.builder.looked c.outlook → c.showsEnd = true := by
    intro c hc
    have hs := h _ _ hc
    unfold Shows Reading.outlook at hs
    unfold Cursor.showsEnd
    simpa [or_assoc] using hs
  have hend : Writes P atEnd fun _ => P := (demandSeen_writes hshows).bind fun _ => get_writes.bind fun _ => .pure _ fun _ _ h => h
  exact atEnd_looks.found hend

/-- A condition that a rule puts on itself leaves the builder. -/
theorem demand_writes (condition : Bool) (defect : Defect) : Writes P (demand condition defect) fun _ => P :=
  .of_same fun c => c.demand_builder condition defect

/-! ## Taking lexemes and building nodes -/

/-- What is looked past and written at once is the trivia that come next, whether or not they were looked past before. -/
theorem Cursor.Agrees.drained {c : Cursor} (h : c.Agrees) :
    (c.builder.look c.nextTrivia).drain = { c.builder with written := c.parts ++ c.nextTrivia.map .leaf, buffer := [], looked := true } := by
  unfold Builder.drain Builder.look
  cases hl : c.builder.looked with
  | true => simp [h.written, h.buffer, hl]
  | false => simp [h.written, h.buffer, hl]

/-- Behind a lexeme that was taken nothing was looked past. Where none is left, the trivia that are were. -/
theorem advance_writes {r : Rule Unit} {record : Token → Token} {Q : Unit → Bool → Outlook → Prop} (hr : ∀ c, r c = ((), c.advance record))
    (hnil : ∀ b o, P b o → o.ahead = [] → Q () true o)
    (hcons : ∀ b o l ls, P b o → o.ahead = l :: ls → Q () false ⟨ls, o.tail, l.span.stop⟩) : Writes P r Q := by
  intro c hc hp
  rw [hr]
  cases ha : c.ahead with
  | nil =>
    obtain ⟨hagrees, hopened, hlooked, -⟩ := lookPast_writes (R := fun _ => True) c hc trivial
    have hrun : (c.advance record).toReading = c.look.toReading ∧ (c.advance record).builder = c.look.builder := by
      rw [Cursor.advance, ha]
      exact ⟨rfl, rfl⟩
    obtain ⟨hreading, hbuilder⟩ := hrun
    have htrivia : (c.advance record).nextTrivia = c.look.nextTrivia := by
      rw [Cursor.nextTrivia_eq, Cursor.nextTrivia_eq, hreading]
    refine ⟨⟨?_, ?_, ?_⟩, ?_, ?_⟩
    · rw [hbuilder, hreading]
      exact hagrees.written
    · rw [hbuilder, htrivia]
      exact hagrees.buffer
    · rw [hbuilder]
      exact hagrees.faultless
    · exact (congrArg Builder.opened hbuilder).trans hopened
    · have hlooked : (c.advance record).builder.looked = true := (congrArg Builder.looked hbuilder).trans hlooked
      have houtlook : (c.advance record).outlook = c.outlook := congrArg Reading.outlook hreading
      rw [hlooked, houtlook]
      exact hnil _ _ hp ha
  | cons l ls =>
    have htrivia : c.nextTrivia = l.lead := by rw [Cursor.nextTrivia, ha]
    have hwrite : c.builder.write l.lead (record l.token) =
        { c.builder with written := c.parts ++ l.lead.map .leaf ++ [.leaf (record l.token)], buffer := [], looked := false } := by
      rw [Builder.write, ← htrivia, hc.drained]
    have hrun : c.advance record = { c with
        parts := c.parts ++ l.lead.map .leaf ++ [.leaf (record l.token)]
        ahead := ls
        reached := l.span.stop
        patience := fullPatience
        builder := { c.builder with written := c.parts ++ l.lead.map .leaf ++ [.leaf (record l.token)], buffer := [], looked := false } } := by
      rw [Cursor.advance, ha, ← hwrite]
    rw [hrun]
    exact ⟨⟨rfl, rfl, hc.faultless⟩, rfl, hcons _ _ l ls hp ha⟩

/-- Taking a lexeme writes it. -/
theorem take_writes : Writes P take fun _ => Anyhow := advance_writes (fun _ => rfl) (fun _ _ _ _ => trivial) fun _ _ _ _ _ _ => trivial

/-- Taking a keyword does. -/
theorem takeKeyword_writes : Writes P takeKeyword fun _ => Anyhow :=
  advance_writes (fun _ => rfl) (fun _ _ _ _ => trivial) fun _ _ _ _ _ _ => trivial

/-- Where a lexeme is left, behind it nothing was looked past. -/
theorem take_fresh : Writes (fun _ o => o.Goes) take fun _ => Fresh :=
  advance_writes (fun _ => rfl) (fun _ _ h hn => absurd hn h) fun _ _ _ _ _ _ => rfl

/-- Where a keyword is taken, neither was it. -/
theorem takeKeyword_fresh : Writes (fun _ o => o.Goes) takeKeyword fun _ => Fresh :=
  advance_writes (fun _ => rfl) (fun _ _ h hn => absurd hn h) fun _ _ _ _ _ _ => rfl

/-- Taking some keywords writes them. -/
theorem takeKeywords_writes (n : Nat) : Writes P (takeKeywords n) fun _ => Anyhow := by
  induction n generalizing P with
  | zero => exact .pure _ fun _ _ _ => trivial
  | succ n ih => exact takeKeyword_writes.bind fun _ => ih

/-- If a lexeme is accepted, behind it nothing was looked past, and if none is, it was looked for. -/
theorem accept_writes (kind : TokenKind) : Writes P (accept kind) fun b l _ => l = !b := by
  refine (sees_looked kind).bind fun b => .ite (fun hb => ?_) fun hb => ?_
  · exact (take_fresh.of_imp fun _ o h => (h.2.mp hb).goes).bind fun _ => .pure _ fun _ _ h => h
  · exact .pure _ fun _ _ h => h.1

/-- A node is finished where it was started, if the builder has written what comes before it and nothing that comes in it. -/
theorem finished_writes {r : Rule α} {Q : α → Bool → Outlook → Prop} (kind : NodeKind) (h : Writes P r Q) {c : Cursor}
    (hwritten : c.builder.drain.written = c.parts) (hnone : c.builder.looked = true → c.nextTrivia = []) (hfaultless : c.builder.defects = [])
    (hp : P c.builder.looked c.outlook) : (nodeWithLead kind r c).2.Agrees ∧ (nodeWithLead kind r c).2.builder.opened = c.builder.opened ∧
      Q (nodeWithLead kind r c).1 (nodeWithLead kind r c).2.builder.looked (nodeWithLead kind r c).2.outlook := by
  have hstart : (c.startNode kind).Agrees := by
    refine ⟨rfl, ?_, hfaultless⟩
    change [] = if c.builder.looked then c.nextTrivia else []
    split
    · next hl => exact (hnone hl).symm
    · rfl
  obtain ⟨hinside, hopened, hq⟩ := h (c.startNode kind) hstart hp
  have hrun : nodeWithLead kind r c = ((r (c.startNode kind)).1, (r (c.startNode kind)).2.finishNode kind c.parts) := rfl
  rw [hrun]
  generalize (r (c.startNode kind)).2 = d at hinside hopened hq ⊢
  have hopened : d.builder.opened = (kind, c.parts) :: c.builder.opened := hwritten ▸ hopened
  have hfinish : d.builder.finish =
      { d.builder with opened := c.builder.opened, written := c.parts ++ [.node kind d.parts] } := by
    rw [Builder.finish, hopened, hinside.written]
  have hfinished : d.finishNode kind c.parts = { d with
      parts := c.parts ++ [.node kind d.parts]
      builder := { d.builder with opened := c.builder.opened, written := c.parts ++ [.node kind d.parts] } } := by
    rw [Cursor.finishNode, hfinish]
  rw [hfinished]
  exact ⟨⟨rfl, hinside.buffer, hinside.faultless⟩, rfl, hq⟩

/-- A node that has the trivia in front of it inside has to start where they were not looked past. -/
theorem nodeWithLead_writes {r : Rule α} {Q : α → Bool → Outlook → Prop} (kind : NodeKind) (h : Writes P r Q)
    (hP : ∀ b o, P b o → Fresh b o) : Writes P (nodeWithLead kind r) Q := by
  intro c hc hp
  have hfresh : c.builder.looked = false := hP _ _ hp
  have hbuffer : c.builder.buffer = [] := by rw [hc.buffer, hfresh]; rfl
  refine finished_writes kind h ?_ (fun hl => ?_) hc.faultless hp
  · rw [Builder.drain, hbuffer, hc.written]
    exact List.append_nil _
  · rw [hfresh] at hl
    cases hl

/-- A node that starts behind them has to start where they were. -/
theorem node_writes {r : Rule α} {Q : α → Bool → Outlook → Prop} (kind : NodeKind) (h : Writes S r Q)
    (hP : ∀ b o, P b o → Looked b o ∧ S true o.placed) : Writes P (node kind r) Q := by
  intro c hc hp
  obtain ⟨hlooked, hp⟩ := hP _ _ hp
  have hlooked : c.builder.looked = true := hlooked
  have hbuffer : c.builder.buffer = c.nextTrivia := by rw [hc.buffer, hlooked]; rfl
  have hplaced : c.placeTrivia.outlook = c.outlook.placed := outlook_placeTrivia c
  refine finished_writes (c := c.placeTrivia) kind h ?_ (fun _ => ?_) hc.faultless ?_
  · change c.builder.written ++ c.builder.buffer.map .leaf = c.parts ++ c.nextTrivia.map .leaf
    rw [hc.written, hbuffer]
  · rw [Cursor.nextTrivia_eq, hplaced, Outlook.trivia_placed]
  · rw [hplaced]
    exact hlooked.symm ▸ hp

/-- That is enough for a node in which nothing need be known. -/
theorem node_looked {r : Rule α} {Q : α → Bool → Outlook → Prop} (kind : NodeKind) (h : Writes Anyhow r Q)
    (hP : ∀ b o, P b o → Looked b o) : Writes P (node kind r) Q :=
  node_writes kind h fun _ _ hp => ⟨hP _ _ hp, trivial⟩

/-- At the end of a node the trivia that come next are written wherever it is. -/
theorem eatTrivia_writes : Writes P eatTrivia fun _ => Anyhow := by
  intro c hc _
  obtain ⟨hlook, hopened, hlooked, -⟩ := lookPast_writes (R := fun _ => True) c hc trivial
  have hlooked : c.look.builder.looked = true := hlooked
  have hbuffer : c.look.builder.buffer = c.nextTrivia := by
    rw [show c.look.builder.buffer = _ from hlook.buffer, show (lookPast c).2.builder.looked = true from hlooked]
    rfl
  have hrun : (eatTrivia c).2 = { c.placeTrivia with builder := c.look.builder.drain } := rfl
  have htrivia : (eatTrivia c).2.nextTrivia = [] := by
    rw [Cursor.nextTrivia_eq, hrun]
    exact (congrArg Outlook.trivia (outlook_placeTrivia c)).trans (Outlook.trivia_placed _)
  refine ⟨⟨?_, ?_, hlook.faultless⟩, hopened, trivial⟩
  · change c.look.builder.written ++ c.look.builder.buffer.map .leaf = c.parts ++ c.nextTrivia.map .leaf
    rw [hbuffer, show c.look.builder.written = c.parts from hlook.written]
  · rw [htrivia]
    exact (ite_self []).symm

/-! ## Reports -/

/-- A report leaves the builder. -/
theorem Cursor.addReport_builder (c : Cursor) (place : Nat) (report : Diagnostic) :
    (c.addReport place report).builder = c.builder ∧ (c.addReport place report).parts = c.parts ∧
      (c.addReport place report).outlook = c.outlook := by
  unfold Cursor.addReport
  split <;> exact ⟨rfl, rfl, rfl⟩

/-- So it writes nothing. -/
theorem reportAt_writes (kind : DiagnosticKind) (span : Span) (detail : Option String) (related : List Related) :
    Writes P (reportAt kind span detail related) fun _ => P := .of_same fun c => c.addReport_builder _ _

/-- The trivia that come next can be looked past anywhere. -/
theorem lookPast_looked : Writes P lookPast fun _ => Looked :=
  (lookPast_writes (R := fun _ => True)).imp (fun _ _ _ => trivial) fun _ _ _ h => h.1

/-- To report at the next lexeme one looks past the trivia in front of it. -/
theorem reportNext_writes (kind : DiagnosticKind) (detail : Option String) : Writes P (reportNext kind detail) fun _ => Looked :=
  lookPast_looked.bind fun _ => .of_same fun c => c.addReport_builder _ _

/-- So one does to report what was expected there. -/
theorem report_writes (kind : DiagnosticKind) (detail : String) : Writes P (report kind detail) fun _ => Looked :=
  reportNext_writes kind (some detail)

/-- So one does to report a bracket that is not closed. -/
theorem reportUnclosed_writes (kind : DiagnosticKind) (note : String) (opening : Span) :
    Writes P (reportUnclosed kind note opening) fun _ => Looked := by
  refine lookPast_looked.bind fun _ => .of_same fun c => ?_
  obtain ⟨hbuilder, hparts, houtlook⟩ := (c.demand (opening.start ≤ c.nextSpan.stop) .reversedSpan).addReport_builder c.nextSpan.start
    ⟨kind, ⟨opening.start, c.nextSpan.stop⟩, none, [⟨note, opening⟩]⟩
  obtain ⟨hbuilder', hparts', houtlook'⟩ := c.demand_builder (opening.start ≤ c.nextSpan.stop) .reversedSpan
  exact ⟨hbuilder.trans hbuilder', hparts.trans hparts', houtlook.trans houtlook'⟩

/-! ## Answers -/

/-- A yes is settled. -/
theorem yes_settled : Writes P (pure true : Rule Bool) Settled := .pure true fun _ _ _ h => nomatch h

/-- A no is where the trivia that come next were looked past. -/
theorem no_settled : Writes Looked (pure false : Rule Bool) Settled := .pure false fun _ _ h _ => .inl h

/-- What is reported is missing. -/
theorem missing_settled (kind : DiagnosticKind) (detail : Option String) :
    Writes P (reportNext kind detail >>= fun _ => pure false) Settled :=
  (reportNext_writes kind detail).bind fun _ => no_settled

/-! ## Loops -/

/-- A loop writes what its rounds write. A round that goes on has to take a lexeme, unless the loop might end there as well. -/
theorem repeatRule_writes {step : σ → Rule (Bool × σ)} {I Q : σ → Bool → Outlook → Prop}
    (h : ∀ a, Writes (I a) (step a) fun r b o => if r.1 = true then I r.2 b o else Q r.2 b o)
    (hstuck : ∀ a c, (step a c).1.1 = true → ¬ (step a c).2.ahead.length < c.ahead.length →
      ∀ b o, I (step a c).1.2 b o → Q (step a c).1.2 b o)
    (a : σ) : Writes (I a) (repeatRule step a) Q := by
  intro c
  fun_induction repeatRule step a c with
  | case1 a c b d hs =>
    intro hc hi
    obtain ⟨ha, ho, hq⟩ := h a c hc hi
    rw [hs] at ha ho hq
    exact ⟨ha, ho, hq⟩
  | case2 a c b d hs hlt ih =>
    intro hc hi
    obtain ⟨ha, ho, hq⟩ := h a c hc hi
    rw [hs] at ha ho hq
    obtain ⟨ha', ho', hq'⟩ := ih ha hq
    exact ⟨ha', ho'.trans ho, hq'⟩
  | case3 a c b d hs hlt =>
    intro hc hi
    obtain ⟨ha, ho, hq⟩ := h a c hc hi
    have hend := hstuck a c
    rw [hs] at ha ho hq hend
    obtain ⟨ha', ho', hq'⟩ := demand_writes (P := I b) false .stuck d ha hq
    exact ⟨ha', ho'.trans ho, hend rfl hlt _ _ hq'⟩

/-- What every round keeps, the loop keeps. -/
theorem repeatRule_keeps {step : σ → Rule (Bool × σ)} (h : ∀ a, Writes P (step a) fun _ => P) (a : σ) :
    Writes P (repeatRule step a) fun _ => P :=
  repeatRule_writes (I := fun _ => P) (Q := fun _ => P) (fun a => (h a).imp (fun _ _ hp => hp) fun _ _ _ hp => (ite_self (P _ _)).mpr hp)
    (fun _ _ _ _ _ _ hp => hp) a

/-- A loop of which nothing need be known writes what its rounds write. -/
theorem repeatRule_anyhow {step : σ → Rule (Bool × σ)} (h : ∀ a, Writes Anyhow (step a) fun _ => Anyhow) (a : σ) :
    Writes P (repeatRule step a) fun _ => Anyhow := (repeatRule_keeps h a).anyhow

/-- A loop that goes on as long as all is complete is settled if its rounds are. -/
theorem repeatRule_settled {step : Bool → Rule (Bool × Bool)}
    (h : ∀ a, Writes Anyhow (step a) fun r l o => if r.1 = true then r.2 = true else Settled r.2 l o) :
    Writes P (repeatRule step true) Settled := by
  refine (repeatRule_writes (I := fun a _ _ => a = true) (Q := Settled) (fun a => (h a).anyhow) ?_ true).of_imp fun _ _ _ => rfl
  intro _ _ _ _ _ _ ha hb
  rw [ha] at hb
  cases hb

end QueryStubs.Grammar
