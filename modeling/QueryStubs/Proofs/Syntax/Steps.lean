import QueryStubs.Grammar.Setter
import QueryStubs.Proofs.Syntax.Grammar
import QueryStubs.Proofs.Syntax.Reads

/-!
# Taking lexemes and building nodes

The steps that every rule is made of, as readers of the smallest forms. A clean reading that moves past lexemes is clean again if it
ends outside every literal (`Reading.Clean.past`).
-/

namespace QueryStubs.Grammar

open QueryStubs

/-! ## The next token -/

/-- The next token is of a kind. -/
def IsKind (kind : TokenKind) (t : Option Token) : Prop := t.map (·.kind) = some kind

/-- The next token is of one of some kinds. -/
def IsOf (p : TokenKind → Bool) (t : Option Token) : Prop := ∃ u, t = some u ∧ p u.kind = true

/-- The next token is a word. -/
def IsWord (word : String) (t : Option Token) : Prop := t.any (·.isWord word) = true

/-- The next token is not a colon. -/
def NoColon (t : Option Token) : Prop := ¬ IsKind .colon t

/-- The lexeme ahead is of a kind if the next token is. -/
theorem Outlook.kindAt_zero {o : Outlook} {kind : TokenKind} : o.KindAt 0 kind ↔ IsKind kind o.head := by
  obtain ⟨_ | ⟨l, ls⟩, tail, reached⟩ := o <;> rfl

/-- The lexeme ahead is a word if the next token is. -/
theorem Outlook.wordAt_zero {o : Outlook} {word : String} : o.WordAt 0 word ↔ IsWord word o.head := by
  obtain ⟨_ | ⟨l, ls⟩, tail, reached⟩ := o <;> rfl

theorem sees_head (kind : TokenKind) : Keeps (sees kind) fun b o => b = true ↔ IsKind kind o.head :=
  ((sees_looks kind).imp (Nat.le_refl 1) fun _ _ h => h.trans Outlook.kindAt_zero).keeps

theorem nextKind_head (p : TokenKind → Bool) : Keeps nextKind fun a o => a.any p = true ↔ IsOf p o.head := by
  refine (nextKind_looks.imp (Nat.le_refl 1) fun a o h => ?_).keeps
  obtain ⟨_ | ⟨l, ls⟩, tail, reached⟩ := o
  · simp [h, IsOf, Outlook.head]
  · simp [h, IsOf, Outlook.head, Lexeme.kind]

theorem seesWord_head (word : String) : Keeps (seesWord word) fun b o => b = true ↔ IsWord word o.head :=
  ((seesWordAt_looks 0 word).imp (Nat.le_refl 1) fun _ _ h => h.trans Outlook.wordAt_zero).keeps

@[simp] theorem isKind_some {kind : TokenKind} {t : Token} : IsKind kind (some t) ↔ t.kind = kind := by
  simp [IsKind]

@[simp] theorem isWord_some {word : String} {t : Token} : IsWord word (some t) ↔ t.kind = .name ∧ t.text = word := by
  simp [IsWord, Token.isWord]

@[simp] theorem not_isWord_none {word : String} : ¬ IsWord word none := by
  simp [IsWord]

/-- A token is of one kind only. -/
theorem IsKind.ne {kind kind' : TokenKind} {t : Option Token} (h : IsKind kind t) (hk : kind ≠ kind') : ¬ IsKind kind' t :=
  fun h' => hk (Option.some.inj (h.symm.trans h'))

/-- The token that is a word. -/
theorem IsWord.token {word : String} {t : Option Token} (h : IsWord word t) : ∃ u, t = some u ∧ u.kind = .name ∧ u.text = word := by
  cases t with
  | none => exact absurd h not_isWord_none
  | some u => exact ⟨u, rfl, isWord_some.mp h⟩

/-- A word is a name. -/
theorem IsWord.isKind {word : String} {t : Option Token} (h : IsWord word t) : IsKind .name t := by
  obtain ⟨u, rfl, hk, -⟩ := h.token
  exact isKind_some.mpr hk

/-- The next token is one word only. -/
theorem IsWord.unique {word word' : String} {t : Option Token} (h : IsWord word t) (h' : IsWord word' t) : word = word' := by
  obtain ⟨u, rfl, -, rfl⟩ := h.token
  exact (isWord_some.mp h').2

/-- A lexeme of a kind starts with itself. -/
theorem mark_leads {kind : TokenKind} {G : Option Token → Prop} : (Form.mark kind).Leads G (IsKind kind) :=
  .one fun _ h => isKind_some.mpr (of_decide_eq_true h)

/-- So does a word. -/
theorem word_leads {word : String} {G : Option Token → Prop} : (Form.word word).Leads G (IsWord word) :=
  .keyword fun _ hk hw => isWord_some.mpr ⟨hk, List.mem_singleton.mp hw⟩

/-- Where a token comes next, a lexeme does. -/
theorem Outlook.ahead_of_head {o : Outlook} {t : Token} (h : o.head = some t) : ∃ l ls, o.ahead = l :: ls ∧ l.token = t := by
  obtain ⟨_ | ⟨l, ls⟩, tail, reached⟩ := o
  · cases h
  · exact ⟨l, ls, rfl, Option.some.inj h⟩

/-- Where a token of a kind comes next, a lexeme of the kind does. -/
theorem IsKind.lexeme {o : Outlook} {kind : TokenKind} (h : IsKind kind o.head) : ∃ l ls, o.ahead = l :: ls ∧ l.token.kind = kind :=
  (Outlook.kindAt_zero.mpr h).cons

/-- So what a reading has ahead starts with it. -/
theorem IsKind.outlook_eq {s : Reading} {kind : TokenKind} (h : IsKind kind s.outlook.head) :
    ∃ l ls, s.ahead = l :: ls ∧ s.outlook = ⟨l :: ls, s.tail, s.reached⟩ ∧ l.token.kind = kind := by
  obtain ⟨l, ls, ha, hk⟩ := h.lexeme
  have ha : s.ahead = l :: ls := ha
  exact ⟨l, ls, ha, by rw [Reading.outlook, ha], hk⟩

/-- A name that comes next is the word that it is written as. -/
theorem IsKind.isWord {o : Outlook} {word : String} (h : IsKind .name o.head) (hword : ∀ l ls, o.ahead = l :: ls → word = l.token.text) :
    IsWord word o.head := by
  obtain ⟨l, ls, ha, hk⟩ := h.lexeme
  rw [Outlook.head, ha]
  exact isWord_some.mpr ⟨hk, (hword l ls ha).symm⟩

/-! ## Taking lexemes -/

/-- A reading that has moved past some lexemes and made trees of them. -/
def Reading.past (s : Reading) (ts : List Tree) (run ls : List Lexeme) : Reading :=
  { s with
    parts := s.parts ++ ts
    ahead := ls
    reached := reachedBy s.reached run }

/-- The place behind some lexemes and then others is the place behind all of them. -/
theorem reachedBy_append (place : Nat) (run run' : List Lexeme) :
    reachedBy place (run ++ run') = reachedBy (reachedBy place run) run' := by
  induction run generalizing place with
  | nil => rfl
  | cons l run ih => exact ih _

/-- Moving past some lexemes and then past others is moving past all of them. -/
theorem Reading.past_past (s : Reading) (ts us : List Tree) (run run' ls ls' : List Lexeme) :
    (s.past ts run ls).past us run' ls' = s.past (ts ++ us) (run ++ run') ls' := by
  simp only [Reading.past, List.append_assoc, reachedBy_append]

/-- Lexemes in order stay in order behind some of them, and the place reached does not go back. -/
theorem ordered_past {limit place : Nat} {run ls : List Lexeme} (h : Ordered limit place (run ++ ls)) :
    Ordered limit (reachedBy place run) ls ∧ place ≤ reachedBy place run := by
  induction run generalizing place with
  | nil => exact ⟨h, Nat.le_refl _⟩
  | cons l run ih =>
    obtain ⟨h1, h2, h3⟩ := h
    obtain ⟨h4, h5⟩ := ih h3
    refine ⟨h4, ?_⟩
    have : reachedBy place (l :: run) = reachedBy l.span.stop run := rfl
    omega

/-- The next lexeme starts behind the place reached. -/
theorem Reading.reached_le_nextPlace {s : Reading} (h : s.Ordered) : s.reached ≤ s.nextPlace := by
  unfold Reading.Ordered at h
  unfold Reading.nextPlace
  cases ha : s.ahead with
  | nil =>
    rw [ha] at h
    exact h
  | cons l ls =>
    rw [ha] at h
    exact h.1

/-- A reading that moves past a lexeme comes to a later place. -/
theorem Reading.nextPlace_past {s : Reading} (hs : s.Ordered) (ts : List Tree) {l : Lexeme} {run ls : List Lexeme}
    (ha : s.ahead = l :: run ++ ls) : s.nextPlace < (s.past ts (l :: run) ls).nextPlace := by
  have ho := hs
  unfold Reading.Ordered at ho
  rw [ha] at ho
  have hord : (s.past ts (l :: run) ls).Ordered := (ordered_past ho).1
  have h1 : s.nextPlace = l.span.start := by rw [Reading.nextPlace, ha]; rfl
  have h2 : l.span.stop ≤ reachedBy l.span.stop run := (ordered_past ho.2.2).2
  have h3 : reachedBy l.span.stop run ≤ (s.past ts (l :: run) ls).nextPlace := reached_le_nextPlace hord
  have h4 := ho.2.1
  omega

/-- A reading that moves past lexemes stays clean if it is outside every literal then. -/
theorem Reading.Clean.past {s : Reading} (hs : s.Clean) (ts : List Tree) {run ls : List Lexeme} (ha : s.ahead = run ++ ls)
    (hal : Aligned ls) : (s.past ts run ls).Clean := by
  have ho := hs.ordered
  unfold Reading.Ordered at ho
  rw [ha] at ho
  refine ⟨(ordered_past ho).1, hal, hs.faultless, fun p h => ?_⟩
  have hlt := hs.last p h
  cases run with
  | nil =>
    unfold Reading.nextPlace at hlt ⊢
    rw [ha] at hlt
    exact hlt
  | cons l run => exact Nat.lt_trans hlt (Reading.nextPlace_past hs.ordered ts ha)

/-- Moving past the next lexeme. -/
theorem advance_past {c : Cursor} (record : Token → Token) {l : Lexeme} {ls : List Lexeme} (ha : c.ahead = l :: ls) :
    (c.advance record).toReading = c.toReading.past (leavesFor l.lead ++ [.leaf (record l.token)]) [l] ls := by
  simp only [Cursor.advance, ha, Reading.past, leavesFor, List.append_assoc, reachedBy]

/-- The leaves of a lexeme are those of the trivia in front of it and its own. -/
theorem leavesFor_tokens (l : Lexeme) : leavesFor l.tokens = leavesFor l.lead ++ [.leaf l.token] := by
  simp [leavesFor, Lexeme.tokens]

/-- Looking and going on is going on from where the look was made. -/
theorem Keeps.peel {x : Rule α} {A : α → Outlook → Prop} (hx : Keeps x A) {c : Cursor} {s : Reading} (hc : c.toReading = s)
    (k : α → Rule β) : ∃ a d, (x >>= k) c = k a d ∧ Cursor.toReading d = s ∧ A a s.outlook :=
  ⟨(x c).1, (x c).2, rfl, (hx c).1.trans hc, hc ▸ (hx c).2⟩

/-- Taking a lexeme moves past it. -/
theorem take_past {c : Cursor} {s : Reading} {l : Lexeme} {ls : List Lexeme} (hc : c.toReading = s) (ha : s.ahead = l :: ls) :
    (take c).2.toReading = s.past (leavesFor l.tokens) [l] ls := by
  subst hc
  rw [leavesFor_tokens]
  exact advance_past id ha

/-- Taking a lexeme and going on is going on behind it. -/
theorem take_peel {c : Cursor} {s : Reading} {l : Lexeme} {ls : List Lexeme} (hc : c.toReading = s) (ha : s.ahead = l :: ls)
    (k : Unit → Rule β) : ∃ d, (Grammar.take >>= k) c = k () d ∧ Cursor.toReading d = s.past (leavesFor l.tokens) [l] ls :=
  ⟨_, rfl, take_past hc ha⟩

/-- The leaves that placing trivia adds. -/
theorem parts_placeTrivia (c : Cursor) : c.placeTrivia.parts = c.parts ++ leavesFor c.outlook.trivia := by
  unfold Reading.outlook Cursor.placeTrivia Cursor.nextTrivia
  cases c.ahead <;> rfl

/-- Placing trivia keeps a cursor clean. -/
theorem Reading.Clean.placeTrivia {c : Cursor} (hc : c.Clean) : c.placeTrivia.Clean := by
  obtain ⟨ho, hal, hf, hlast⟩ := hc
  unfold Reading.Ordered at ho
  unfold Reading.nextPlace at hlast
  unfold Cursor.placeTrivia
  cases ha : c.ahead with
  | nil =>
    rw [ha] at ho hlast
    exact ⟨ho, .nil, hf, hlast⟩
  | cons l ls =>
    rw [ha] at ho hal hlast
    exact ⟨ho, hal.bare, hf, hlast⟩

namespace Reads

variable {S : Prop} {P : Outlook → Prop} {f g : Form} {F G : Option Token → Prop} {good : α → Bool} {r : Rule α}

/-- A rule that either reports an error or moves past lexemes outside every literal reads a form that is built of just these lexemes. -/
theorem of_past (hr : Stays r)
    (h : ∀ c : Cursor, c.Clean → P c.outlook →
      ((r c).2.HasError ∧ ∀ ts o, f.Builds c.outlook ts o → ¬ F o.head) ∨
        ∃ ts run ls, c.ahead = run ++ ls ∧ Aligned ls ∧ good (r c).1 = true ∧ (r c).2.toReading = c.toReading.past ts run ls ∧
          f.Builds c.outlook ts ⟨ls, c.tail, reachedBy c.reached run⟩ ∧
            ∀ us o, f.Builds c.outlook us o → F o.head → us = ts ∧ o = ⟨ls, c.tail, reachedBy c.reached run⟩) :
    Reads S P r good f F := by
  refine ⟨hr, fun c hc hp => ?_, fun c us o hc hp hbo ho => ?_⟩
  · rcases h c hc hp with ⟨he, -⟩ | ⟨ts, run, ls, ha, hal, hg, hd, hb, -⟩
    · exact .inl he
    · refine .inr ⟨hg, ts, hd ▸ hc.past ts ha hal, hd ▸ hb, by rw [hd]; rfl, fun _ => ?_⟩
      rw [hd]
      exact ⟨rfl, rfl, rfl⟩
  · rcases h c hc hp with ⟨-, hn⟩ | ⟨ts, run, ls, ha, hal, -, hd, -, hu⟩
    · exact absurd ho (hn us o hbo)
    · obtain ⟨rfl, rfl⟩ := hu us o hbo ho
      have hcl : (r c).2.Clean := hd ▸ hc.past us ha hal
      exact ⟨hcl.faultless, by rw [hd]; rfl, by rw [hd]; rfl⟩

/-- A rule that moves past a lexeme reads a form that such a lexeme makes, and no other lexeme does. -/
theorem advance {r : Rule Unit} {record : Token → Token} (hr : ∀ c, r c = ((), c.advance record))
    (hP : ∀ o, P o → ∃ l ls, o.ahead = l :: ls ∧ l.kind.isPlain = true ∧ ∀ tail reached,
      f.Builds ⟨l :: ls, tail, reached⟩ (leavesFor l.lead ++ [.leaf (record l.token)]) ⟨ls, tail, l.span.stop⟩)
    (hf : ∀ l ls tail reached ts o, f.Builds ⟨l :: ls, tail, reached⟩ ts o →
      ts = leavesFor l.lead ++ [.leaf (record l.token)] ∧ o = ⟨ls, tail, l.span.stop⟩) :
    Reads S P r (fun _ => true) f F := by
  refine of_past (advance_stays hr) fun c hc hp => .inr ?_
  obtain ⟨l, ls, ha, hpl, hb⟩ := hP _ hp
  have ha : c.ahead = l :: ls := ha
  have hal := hc.aligned
  rw [ha] at hal
  have hco : c.outlook = ⟨l :: ls, c.tail, c.reached⟩ := by rw [Reading.outlook, ha]
  rw [hr, hco]
  exact ⟨_, [l], ls, ha, hal.tail hpl, rfl, advance_past record ha, hb _ _, fun us o hbo _ => hf _ _ _ _ _ _ hbo⟩

/-- Taking a lexeme of one of some kinds that belong to no literal. -/
theorem take {p : TokenKind → Bool} (hp : ∀ k, p k = true → k.isPlain = true) :
    Reads S (fun o => IsOf p o.head) take (fun _ => true) (.one p) F := by
  refine advance (fun _ => rfl) (fun o ⟨t, ht, hk⟩ => ?_) ?_
  · obtain ⟨l, ls, ha, rfl⟩ := Outlook.ahead_of_head ht
    exact ⟨l, ls, ha, hp _ hk, fun tail reached => .one ls tail reached hk⟩
  · intro l ls tail reached ts o hb
    cases hb with
    | one => exact ⟨rfl, rfl⟩

/-- Taking a lexeme of a kind. -/
theorem takeMark {kind : TokenKind} (hk : kind.isPlain = true) :
    Reads S (fun o => P o ∧ IsKind kind o.head) Grammar.take (fun _ => true) (.mark kind) F := by
  refine (take fun k h => ?_).imp (fun o h => ?_) fun _ h => h
  · rw [decide_eq_true_eq] at h
    exact h ▸ hk
  · obtain ⟨t, ht, rfl⟩ := Option.map_eq_some_iff.mp h.2
    exact ⟨t, ht, by simp⟩

/-- Taking one of some words. -/
theorem takeKeyword {words : List String} :
    Reads S (fun o => ∃ t, o.head = some t ∧ t.kind = .name ∧ t.text ∈ words) takeKeyword (fun _ => true) (.keyword words) F := by
  refine advance (fun _ => rfl) (fun o ⟨t, ht, hk, hw⟩ => ?_) ?_
  · obtain ⟨l, ls, ha, rfl⟩ := Outlook.ahead_of_head ht
    exact ⟨l, ls, ha, by rw [Lexeme.kind, hk]; rfl, fun tail reached => .keyword ls tail reached hk hw⟩
  · intro l ls tail reached ts o hb
    cases hb with
    | keyword => exact ⟨rfl, rfl⟩

/-- Taking a word. -/
theorem takeWord {w : String} :
    Reads S (fun o => P o ∧ IsWord w o.head) Grammar.takeKeyword (fun _ => true) (.word w) F := by
  refine takeKeyword.of_imp fun o h => ?_
  obtain ⟨t, ht, hk, hw⟩ := h.2.token
  exact ⟨t, ht, hk, List.mem_singleton.mpr hw⟩

/-! ## Nodes -/

/-- The inside of a node is read apart. -/
theorem leadNode (kind : NodeKind) (h : Reads S P r good f F) : Reads S P (nodeWithLead kind r) good (.leadNode kind f) F where
  stays c he := h.stays (c.startNode kind) he
  sound c hc hp := by
    rcases h.sound (c.startNode kind) ⟨hc.ordered, hc.aligned, hc.faultless, hc.last⟩ hp with he | ⟨hg, ts, hd⟩
    · exact .inl he
    · refine .inr ⟨hg, _, ⟨hd.clean.ordered, hd.clean.aligned, hd.clean.faultless, hd.clean.last⟩, .leadNode hd.builds, ?_, hd.silent⟩
      have hp : (r (c.startNode kind)).2.parts = ts := hd.parts
      rw [← hp]
      rfl
  complete c ts o hc hp hb ho := by
    cases hb with
    | @leadNode _ _ _ _ ts hb =>
      obtain ⟨hne, ho, hp⟩ := h.complete (c.startNode kind) ts o ⟨hc.ordered, hc.aligned, hc.faultless, hc.last⟩ hp hb ho
      have hp : (r (c.startNode kind)).2.parts = ts := hp
      exact ⟨hne, ho, by rw [← hp]; rfl⟩

/-- The trivia in front of a node are placed before it is read. -/
theorem node {Q : Outlook → Prop} (kind : NodeKind) (h : Reads S Q r good f F) (hP : ∀ o, P o → Q o.placed) :
    Reads S P (Grammar.node kind r) good (.node kind f) F := by
  have hin := h.leadNode kind
  have he : ∀ c, Grammar.node kind r c = nodeWithLead kind r c.placeTrivia := fun _ => rfl
  refine ⟨fun c hc => hin.stays c.placeTrivia hc, fun c hc hp => ?_, fun c ts o hc hp hb ho => ?_⟩
  · rcases hin.sound c.placeTrivia hc.placeTrivia (outlook_placeTrivia c ▸ hP _ hp) with herr | ⟨hg, ts, hd⟩
    · exact .inl herr
    · refine .inr ⟨hg, leavesFor c.outlook.trivia ++ ts, hd.clean, ?_, ?_, hd.silent⟩
      · have hb := hd.builds
        rw [show c.placeTrivia.outlook = _ from outlook_placeTrivia c] at hb
        cases hb with
        | leadNode hb => exact .node hb
      · rw [he, hd.parts, parts_placeTrivia, List.append_assoc]
  · cases hb with
    | @node _ _ _ _ ts hb =>
      obtain ⟨hne, ho', hp'⟩ := hin.complete c.placeTrivia [.node kind ts] o hc.placeTrivia (outlook_placeTrivia c ▸ hP _ hp)
        (by rw [outlook_placeTrivia]; exact .leadNode hb) ho
      exact ⟨hne, ho', by rw [he, hp', parts_placeTrivia, List.append_assoc]⟩

end Reads

/-- A node keeps errors if its inside does. -/
theorem Stays.node {r : Rule α} (h : Stays r) (kind : NodeKind) : Stays (Grammar.node kind r) :=
  fun c he => h (c.placeTrivia.startNode kind) he

/-- A node in which an error is reported. -/
theorem Fails.node {P Q : Outlook → Prop} {r : Rule α} (kind : NodeKind) (h : Fails Q r) (hP : ∀ o, P o → Q o.placed) :
    Fails P (Grammar.node kind r) := by
  refine ⟨h.stays.node kind, fun c hc hp => ?_⟩
  have hd := hc.placeTrivia
  exact h.error (c.placeTrivia.startNode kind) ⟨hd.ordered, hd.aligned, hd.faultless, hd.last⟩
    (outlook_placeTrivia c ▸ hP _ hp : Q c.placeTrivia.outlook)

end QueryStubs.Grammar
