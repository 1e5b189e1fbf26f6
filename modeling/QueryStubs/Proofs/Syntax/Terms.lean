import QueryStubs.Proofs.Syntax.Steps

/-!
# Reading words, names and literals

The rules that the declarations are made of. A qualified name must not be followed by a colon, because a rule would take it for the
colon of the name.
-/

namespace QueryStubs.Grammar

open QueryStubs

/-! ## Rules that take a lexeme if it is there -/

/-- Accepting a lexeme and going on is looking at it and going on in either of two ways. -/
theorem accept_bind (kind : TokenKind) (k : Bool → Rule α) :
    (accept kind >>= k) = (sees kind >>= fun b => if b = true then take >>= fun _ => k true else k false) := by
  unfold accept
  rw [bind_assoc]
  refine congrArg _ (funext fun b => ?_)
  cases b <;> rfl

/-- An error stays reported where a lexeme is accepted. -/
theorem accept_stays (kind : TokenKind) : Stays (accept kind) := by
  refine (sees_head kind).stays.bind fun b => ?_
  cases b with
  | false => exact fun _ h => h
  | true => exact take_stays.bind fun _ _ h => h

namespace Reads

variable {S : Prop} {P : Outlook → Prop} {f g : Form} {F G : Option Token → Prop} {good : α → Bool}

/-- A result may be given after a rule that has none. -/
theorem thenPure {x : Rule β} {a : α} (h : Reads S P x (fun _ => true) f F) (ha : good a = true) :
    Reads S P (x >>= fun _ => Pure.pure a) good f F where
  stays := h.stays.bind fun _ _ he => he
  sound c hc hp := by
    rcases h.sound c hc hp with he | ⟨-, hd⟩
    · exact .inl he
    · exact .inr ⟨ha, hd⟩
  complete := h.complete

/-- A rule may be followed by another if it is complete. -/
theorem andThen {x y : Rule Bool} (hx : Reads S P x id f F) (hy : Reads S (fun _ => True) y id g G) (hlead : g.Leads G F) :
    Reads S P (x >>= fun b => if b = true then y else Pure.pure false) id (.seq f g) G := by
  refine bind hx (fun _ _ _ _ _ => trivial) (fun b hb => ?_) (fun b hb => ?_) hlead
  · have hb : b = true := hb
    rw [hb]
    exact hy
  · have hb : b = false := hb
    rw [hb]
    exact fun c he => he

/-- A rule without a result is followed by another. -/
theorem andNext {Q : Outlook → Prop} {x : Rule Unit} {y : Rule α} (hx : Reads S P x (fun _ => true) f F)
    (hQ : ∀ o ts o', P o → f.Builds o ts o' → Q o') (hy : Reads S Q y good g G) (hlead : g.Leads G F) :
    Reads S P (x >>= fun _ => y) good (.seq f g) G :=
  bind hx hQ (fun _ _ => hy) (fun _ h => Bool.noConfusion h) hlead

/-- A rule is followed by one that always has a good result. -/
theorem thenAlways {x : Rule Bool} {y : Rule Unit} (hx : Reads S P x id f F) (hy : Reads S (fun _ => True) y (fun _ => true) g G)
    (hlead : g.Leads G F) :
    Reads S P (x >>= fun b => if b = true then y >>= fun _ => Pure.pure true else Pure.pure false) id (.seq f g) G :=
  andThen hx (hy.thenPure rfl) hlead

end Reads

variable {S : Prop} {P : Outlook → Prop} {F G : Option Token → Prop}

/-- An expected lexeme is read as one of its kind. -/
theorem expect_reads {kind : TokenKind} (hk : kind.isPlain = true) (what : String) :
    Reads S P (expect kind what) id (.mark kind) F := by
  unfold expect
  rw [accept_bind]
  refine Reads.when (sees_head kind) (.thenPure (.takeMark hk) rfl) (.one fun t h => ?_) ((Fails.reportNext _ rfl).thenPure _)
  simpa using h

/-- A lexeme that is there is accepted. -/
theorem accept_reads {kind : TokenKind} (hk : kind.isPlain = true) :
    Reads S (fun o => P o ∧ IsKind kind o.head) (accept kind) id (.mark kind) F := by
  refine .look (sees_head kind) fun b => .ite (fun _ => .thenPure ((Reads.takeMark hk).of_imp fun _ h => h.1) rfl) fun hb => ?_
  refine .unused (fun _ h => h) fun o h => ?_
  rw [h.2.mpr h.1.2] at hb
  cases hb

/-- One of some words decides between two forms. -/
theorem acceptWordOf_bind_reads {α : Type} {words : List String} {k : Bool → Rule α} {good : α → Bool} {f : Form}
    (hx : Reads S (fun o => P o ∧ ∃ w ∈ words, IsWord w o.head) (takeKeyword >>= fun _ => k true) good f F)
    (hy : Reads S (fun o => P o ∧ ¬ ∃ w ∈ words, IsWord w o.head) (k false) good f F) :
    Reads S P (acceptWordOf words >>= k) good f F := by
  induction words generalizing P with
  | nil => exact hy.imp (fun o h => ⟨h, by simp⟩) fun _ h => h
  | cons w ws ih =>
    have he : (acceptWordOf (w :: ws) >>= k) = (seesWord w >>= fun b => if b = true then takeKeyword >>= fun _ => k true
        else acceptWordOf ws >>= k) := by
      rw [acceptWordOf, bind_assoc]
      refine congrArg _ (funext fun b => ?_)
      cases b <;> rfl
    rw [he]
    refine Reads.look (seesWord_head w) fun b => Reads.ite (fun hb => ?_) fun hb => ?_
    · exact hx.imp (fun o h => ⟨h.1, w, List.mem_cons_self .., h.2.mp hb⟩) fun _ h => h
    · refine (ih (P := fun o => P o ∧ ¬ IsWord w o.head) ?_ ?_).imp (fun o h => ⟨h.1, fun hw => by simp [h.2.mpr hw] at hb⟩) fun _ h => h
      · refine hx.imp (fun o h => ⟨h.1.1, ?_⟩) fun _ h => h
        obtain ⟨v, hv, hw⟩ := h.2
        exact ⟨v, List.mem_cons_of_mem _ hv, hw⟩
      · refine hy.imp (fun o h => ⟨h.1.1, ?_⟩) fun _ h => h
        rintro ⟨v, hv, hw⟩
        rcases List.mem_cons.mp hv with rfl | hv
        · exact h.1.2 hw
        · exact h.2 ⟨v, hv, hw⟩

/-- One of some expected words is read as a keyword. -/
theorem expectWordOf_reads (words : List String) : Reads S P (expectWordOf words) id (.keyword words) F := by
  unfold expectWordOf
  refine acceptWordOf_bind_reads ?_ ?_
  · refine .thenPure (.imp .takeKeyword (fun o h => ?_) fun _ h => h) rfl
    obtain ⟨-, w, hw, h⟩ := h
    obtain ⟨t, ht, hk, rfl⟩ := h.token
    exact ⟨t, ht, hk, hw⟩
  · refine ((Fails.reportNext _ rfl).thenPure _).reads fun o ts o' h hb _ => h.2 ?_
    cases hb with
    | keyword ls tail reached hn hw => exact ⟨_, hw, by simp [Outlook.head, Lexeme.kind] at hn ⊢; exact hn⟩

/-- An expected word is read as a keyword. -/
theorem expectWord_reads (word : String) : Reads S P (expectWord word) id (.word word) F := expectWordOf_reads [word]

/-- Several words that come next are taken as keywords. -/
theorem takeKeywords_reads (wss : List (List String)) :
    Reads S (fun o => ∀ i ws, wss[i]? = some ws → ∃ w ∈ ws, o.WordAt i w) (takeKeywords wss.length) (fun _ => true)
      (.keywords wss) F := by
  induction wss with
  | nil => exact .pure rfl
  | cons ws wss ih =>
    refine .andNext (Q := fun o => ∀ i ws, wss[i]? = some ws → ∃ w ∈ ws, o.WordAt i w) ?_ ?_ ih (.any _)
    · refine Reads.takeKeyword.imp (fun o h => ?_) fun _ h => h
      obtain ⟨w, hw, hword⟩ := h 0 ws rfl
      rw [Outlook.wordAt_zero] at hword
      obtain ⟨t, ht, hk, rfl⟩ := hword.token
      exact ⟨t, ht, hk, hw⟩
    · intro o ts o' h hb i vs hv
      obtain ⟨w, hw, hword⟩ := h (i + 1) vs hv
      cases hb with
      | keyword => exact ⟨w, hw, by simpa [Outlook.WordAt] using hword⟩

/-! ## Rules in order -/

/-- A row of one rule reads a row of one form. -/
theorem inOrder_one_reads {r : Rule Bool} {f : Form} (h : Reads S P r id f F) : Reads S P (inOrder [r]) id (.row [f]) F := by
  have he : inOrder [r] = r := by
    funext c
    change (if (r c).1 = true then inOrder [] else pure false : Rule Bool) (r c).2 = r c
    generalize r c = a
    obtain ⟨b, d⟩ := a
    cases b <;> rfl
  rw [he]
  exact h

/-- A row of rules reads a row of forms, one after the other. -/
theorem inOrder_cons_reads {r : Rule Bool} {rs : List (Rule Bool)} {f g : Form} {fs : List Form} (h : Reads S P r id f F)
    (hs : Reads S (fun _ => True) (inOrder rs) id (.row (g :: fs)) G) (hl : (Form.row (g :: fs)).Leads G F) :
    Reads S P (inOrder (r :: rs)) id (.row (f :: g :: fs)) G :=
  .andThen h hs hl

/-! ## Names -/

/-- A colon and a name that both touch come next. -/
def Outlook.Suffixed (o : Outlook) : Prop := o.TouchingAt 0 .colon ∧ o.TouchingAt 1 .name

/-- A lexeme that touches has no trivia in front. -/
theorem Outlook.TouchingAt.get {o : Outlook} {i : Nat} {kind : TokenKind} (h : o.TouchingAt i kind) :
    ∃ l, o.ahead[i]? = some l ∧ l.kind = kind ∧ l.lead = [] := by
  unfold Outlook.TouchingAt at h
  cases ha : o.ahead[i]? with
  | none => simp [ha] at h
  | some l =>
    simp only [ha, Option.any_some, Bool.and_eq_true, decide_eq_true_eq] at h
    exact ⟨l, rfl, h.2, List.isEmpty_iff.mp h.1⟩

/-- What may follow the first name of a qualified name. -/
def qnameRest : Rule Unit := do
  if ← seesTouching 0 .colon then
    if ← seesTouching 1 .name then
      take
      take

/-- The two lexemes that come next then. -/
theorem Outlook.Suffixed.cons {o : Outlook} (h : o.Suffixed) :
    ∃ k m ms, o.ahead = k :: m :: ms ∧ k.kind = .colon ∧ k.lead = [] ∧ m.kind = .name ∧ m.lead = [] := by
  obtain ⟨k, hk, hkk, hkl⟩ := h.1.get
  obtain ⟨m, hm, hmk, hml⟩ := h.2.get
  match ha : o.ahead with
  | [] => simp [ha] at hk
  | [x] => simp [ha] at hm
  | x :: y :: ms =>
    rw [ha] at hk hm
    cases hk
    cases hm
    exact ⟨k, m, ms, rfl, hkk, hkl, hmk, hml⟩

/-- The colon and the second name are taken if both touch. -/
theorem qnameRest_suffixed {c : Cursor} {k m : Lexeme} {ms : List Lexeme} (h : c.outlook.Suffixed) (ha : c.ahead = k :: m :: ms) :
    (qnameRest c).2.toReading = c.toReading.past (leavesFor (k.tokens ++ m.tokens)) [k, m] ms := by
  unfold qnameRest
  obtain ⟨b, d, he, hd, hb⟩ := (seesTouching_looks 0 .colon).keeps.peel (c := c) rfl _
  rw [he]
  obtain rfl : b = true := hb.mpr h.1
  obtain ⟨b, d, he, hd, hb⟩ := (seesTouching_looks 1 .name).keeps.peel hd _
  rw [if_pos rfl, he]
  obtain rfl : b = true := hb.mpr h.2
  obtain ⟨d, he, hd⟩ := take_peel hd ha fun _ => take
  rw [if_pos rfl]
  refine (congrArg (fun r => r.2.toReading) he).trans ((take_past hd rfl).trans ?_)
  rw [Reading.past_past]
  simp [leavesFor]

/-- Nothing is taken otherwise. -/
theorem qnameRest_bare {c : Cursor} (h : ¬ c.outlook.Suffixed) : (qnameRest c).2.toReading = c.toReading := by
  unfold qnameRest
  obtain ⟨b, d, he, hd, hb⟩ := (seesTouching_looks 0 .colon).keeps.peel (c := c) rfl _
  rw [he]
  cases b with
  | false => exact hd
  | true =>
    obtain ⟨b, d, he, hd, hb'⟩ := (seesTouching_looks 1 .name).keeps.peel hd _
    rw [if_pos rfl, he]
    cases b with
    | false => exact hd
    | true => exact absurd ⟨hb.mp rfl, hb'.mp rfl⟩ h

/-- An error stays reported where a name goes on. -/
theorem qnameRest_stays : Stays qnameRest := by
  refine Stays.bind (seesTouching_looks 0 .colon).keeps.stays fun b => ?_
  cases b with
  | false => exact fun _ h => h
  | true =>
    refine Stays.bind (seesTouching_looks 1 .name).keeps.stays fun b => ?_
    cases b with
    | false => exact fun _ h => h
    | true => exact take_stays.bind fun _ => take_stays

/-- A name, and a colon and a second name if both touch. -/
theorem qnameInside_past {c : Cursor} {l : Lexeme} {ls : List Lexeme} (ha : c.ahead = l :: ls) :
    (∃ k m ms, ls = k :: m :: ms ∧ (k.kind = .colon ∧ k.lead = []) ∧ (m.kind = .name ∧ m.lead = []) ∧
      ((take >>= fun _ => qnameRest) c).2.toReading =
        c.toReading.past (leavesFor l.lead ++ [.leaf l.token, .leaf k.token, .leaf m.token]) [l, k, m] ms) ∨
      ¬ Outlook.Suffixed ⟨ls, c.tail, l.span.stop⟩ ∧
        ((take >>= fun _ => qnameRest) c).2.toReading = c.toReading.past (leavesFor l.lead ++ [.leaf l.token]) [l] ls := by
  obtain ⟨d, he, hd⟩ := take_peel (c := c) rfl ha fun _ => qnameRest
  have hdo : d.outlook = ⟨ls, c.tail, l.span.stop⟩ := congrArg Reading.outlook hd
  rw [he, ← hdo]
  by_cases hs : d.outlook.Suffixed
  · obtain ⟨k, m, ms, hkm, hkk, hkl, hmk, hml⟩ := hs.cons
    refine .inl ⟨k, m, ms, (congrArg Outlook.ahead hdo).symm.trans hkm, ⟨hkk, hkl⟩, ⟨hmk, hml⟩, ?_⟩
    rw [qnameRest_suffixed hs hkm, hd, Reading.past_past]
    simp [leavesFor, Lexeme.tokens, hkl, hml]
  · refine .inr ⟨hs, ?_⟩
    rw [qnameRest_bare hs, hd, leavesFor_tokens]

/-- What is inside the node of a name is one name, or two with a colon that touches both. -/
theorem qnameInside_reads : Reads S (fun o => IsKind .name o.head) (take >>= fun _ => qnameRest) (fun _ => true)
    (.either .prefixed (.mark .name)) NoColon := by
  refine .of_past (take_stays.bind fun _ => qnameRest_stays) fun c hc hp => .inr ?_
  obtain ⟨l, ls, ha, hco, hk⟩ := IsKind.outlook_eq hp
  have hal := hc.aligned
  rw [ha] at hal
  have hals : Aligned ls := hal.tail (by rw [Lexeme.kind, hk]; rfl)
  rw [hco]
  rcases qnameInside_past ha with ⟨k, m, ms, rfl, ⟨hkk, hkl⟩, ⟨hmk, hml⟩, hpast⟩ | ⟨hs, hpast⟩
  · refine ⟨_, [l, k, m], ms, ha, (hals.tail (by rw [hkk]; rfl)).tail (by rw [hmk]; rfl), rfl, hpast, ?_, ?_⟩
    · exact .first (.prefixed ms _ _ hk hkk (by simp [Lexeme.touches, hkl]) hmk (by simp [Lexeme.touches, hml]))
    · intro us o hb hn
      cases hb with
      | first hb =>
        cases hb with
        | prefixed => exact ⟨rfl, rfl⟩
      | second hb =>
        cases hb with
        | one => exact absurd (by simpa [Outlook.head, Lexeme.kind] using hkk) hn
  · refine ⟨_, [l], ls, ha, hals, rfl, hpast, .second (.one ls _ _ (by simp [Lexeme.kind, hk])), ?_⟩
    intro us o hb hn
    cases hb with
    | first hb =>
      cases hb with
      | @prefixed _ k m ms _ _ _ hkk hkt hmk hmt =>
        exact absurd ⟨by simp [Outlook.TouchingAt, hkk, hkt], by simp [Outlook.TouchingAt, hmk, hmt]⟩ hs
    | second hb =>
      cases hb with
      | one => exact ⟨rfl, rfl⟩

/-- A name is read where no colon follows. -/
theorem qname_reads : Reads S (fun o => P o ∧ IsKind .name o.head) qname (fun _ => true) .qname NoColon := by
  refine .look (sees_head .name) fun b => .look (demand_keeps _ _) fun _ => ?_
  refine (Reads.node .qname (Q := fun o => IsKind .name o.head) qnameInside_reads fun o h => ?_)
  rw [Outlook.head_placed]
  exact h.1.1.2

/-- A qualified name starts with a name. -/
theorem qname_leads {G : Option Token → Prop} : Form.qname.Leads G (IsKind .name) :=
  .node (.either (.prefixed fun _ h => isKind_some.mpr h) mark_leads)

/-- An expected name is read where no colon follows. -/
theorem expectQName_reads (what : String) : Reads S P (expectQName what) id .qname NoColon :=
  .when (sees_head .name) (.thenPure qname_reads rfl) qname_leads ((Fails.reportNext _ rfl).thenPure _)

/-- An expected name without a prefix is read as one token. -/
theorem expectNCName_reads (what : String) : Reads S P (expectNCName what) id (.mark .name) NoColon := by
  refine .when (sees_head .name) ?_ (.one fun t h => by simpa using h) ((Fails.reportNext _ rfl).thenPure _)
  refine .look (seesTouching_looks 1 .colon).keeps fun b => .ite (fun hb => ?_) fun hb => ?_
  · refine ((Fails.reportNext _ rfl).thenPure _).reads fun o ts o' h hbo hn => hn ?_
    have ht := (h.2.mp hb).kindAt
    cases hbo with
    | one ls tail reached => exact Outlook.kindAt_zero.mp (by simpa [Outlook.KindAt] using ht)
  · exact (Reads.thenPure (.takeMark (P := fun _ => True) rfl) rfl).imp (fun _ h => ⟨trivial, h.1.2⟩) fun _ h => h

/-! ## String literals -/

/-- The lexemes of a string literal: two marks, and perhaps a text between. -/
def IsLiteral (run : List Lexeme) : Prop :=
  (∃ first last, run = [first, last] ∧ first.kind.isQuote = true ∧ last.kind = first.kind ∧ last.lead = []) ∨
    ∃ first body last, run = [first, body, last] ∧ first.kind.isQuote = true ∧ body.kind = .literalText ∧ body.lead = [] ∧
      last.kind = first.kind ∧ last.lead = []

/-- A mark that is outside every literal starts one. -/
theorem isLiteral_of_aligned {l : Lexeme} {ls : List Lexeme} (h : Aligned (l :: ls)) (hl : l.kind.isQuote = true) :
    ∃ run rest, l :: ls = run ++ rest ∧ IsLiteral run ∧ Aligned rest := by
  rcases h.opened hl with ⟨last, rest, rfl, hk, ht, ha⟩ | ⟨body, last, rest, rfl, hb, hbt, hk, ht, ha⟩
  · exact ⟨[l, last], rest, rfl, .inl ⟨l, last, rfl, hl, hk, List.isEmpty_iff.mp ht⟩, ha⟩
  · exact ⟨[l, body, last], rest, rfl, .inr ⟨l, body, last, rfl, hl, hb, List.isEmpty_iff.mp hbt, hk, List.isEmpty_iff.mp ht⟩, ha⟩

/-- The lexemes of a literal have no trivia but in front of the first, and are built as they stand. -/
theorem IsLiteral.builds {run : List Lexeme} (h : IsLiteral run) (ls : List Lexeme) (tail : List Token) (reached : Nat) :
    (Form.either (.literalIn .doubleQuote) (.literalIn .singleQuote)).Builds ⟨run ++ ls, tail, reached⟩
      (leavesFor (run.flatMap Lexeme.tokens)) ⟨ls, tail, reachedBy reached run⟩ := by
  have hin : ∃ quote : TokenKind, quote.isQuote = true ∧ (Form.literalIn quote).Builds ⟨run ++ ls, tail, reached⟩
      (leavesFor (run.flatMap Lexeme.tokens)) ⟨ls, tail, reachedBy reached run⟩ := by
    rcases h with ⟨first, last, rfl, hq, hk, hl⟩ | ⟨first, body, last, rfl, hq, hb, hbl, hk, hl⟩
    · have hbuilds : (Form.literalIn first.kind).Builds ⟨first :: last :: ls, tail, reached⟩ _ ⟨ls, tail, last.span.stop⟩ :=
        .seq (.one _ _ _ (decide_eq_true rfl)) (.seq (.second (.nothing _)) (.one _ _ _ (decide_eq_true hk)))
      exact ⟨_, hq, by simpa [Lexeme.tokens, leavesFor, hl, reachedBy] using hbuilds⟩
    · have hbuilds : (Form.literalIn first.kind).Builds ⟨first :: body :: last :: ls, tail, reached⟩ _ ⟨ls, tail, last.span.stop⟩ :=
        .seq (.one _ _ _ (decide_eq_true rfl)) (.seq (.first (.one _ _ _ (decide_eq_true hb))) (.one _ _ _ (decide_eq_true hk)))
      exact ⟨_, hq, by simpa [Lexeme.tokens, leavesFor, hl, hbl, reachedBy] using hbuilds⟩
  obtain ⟨quote, hq, hb⟩ := hin
  cases quote with
  | doubleQuote => exact .first hb
  | singleQuote => exact .second hb
  | _ => cases hq

/-- They are the only ones that can be built. -/
theorem IsLiteral.unique {run ls : List Lexeme} (h : IsLiteral run) {tail : List Token} {reached : Nat} {ts : List Tree}
    {o : Outlook} (hb : (Form.either (.literalIn .doubleQuote) (.literalIn .singleQuote)).Builds ⟨run ++ ls, tail, reached⟩ ts o) :
    ts = leavesFor (run.flatMap Lexeme.tokens) ∧ o = ⟨ls, tail, reachedBy reached run⟩ := by
  have hin : ∃ quote : TokenKind, quote.isQuote = true ∧ (Form.literalIn quote).Builds ⟨run ++ ls, tail, reached⟩ ts o := by
    cases hb with
    | first hb => exact ⟨_, rfl, hb⟩
    | second hb => exact ⟨_, rfl, hb⟩
  obtain ⟨quote, hq, hb⟩ := hin
  rcases h with ⟨first, last, rfl, -, hk, hl⟩ | ⟨first, body, last, rfl, -, hbody, hbl, hk, hl⟩
  · cases hb with
    | seq hfirst hrest =>
      cases hfirst with
      | one =>
        cases hrest with
        | seq hmiddle hlast =>
          cases hmiddle with
          | first hmiddle =>
            cases hmiddle with
            | one _ _ _ ht => simp_all [TokenKind.isQuote]
          | second hmiddle =>
            cases hmiddle
            cases hlast
            simp [Lexeme.tokens, leavesFor, hl, reachedBy]
  · cases hb with
    | seq hfirst hrest =>
      cases hfirst with
      | one =>
        cases hrest with
        | seq hmiddle hlast =>
          cases hmiddle with
          | first hmiddle =>
            cases hmiddle
            cases hlast
            simp [Lexeme.tokens, leavesFor, hl, hbl, reachedBy]
          | second hmiddle =>
            cases hmiddle
            cases hlast with
            | one _ _ _ ht =>
              rw [hbody, decide_eq_true_eq] at ht
              rw [← ht] at hq
              cases hq

/-- An error stays reported where a literal is closed. -/
theorem literalEnd_stays (opening : Option TokenKind) : Stays (literalEnd opening) :=
  (peekRaw_looks 0).keeps.stays.bind fun _ => (demand_keeps _ _).stays.bind fun _ => take_stays

/-- It stays so where the tokens of a literal are taken. -/
theorem literalTokens_stays : Stays literalTokens := by
  refine nextKind_looks.keeps.stays.bind fun opening => take_stays.bind fun _ =>
    Stays.bind (seesTouching_looks 0 .literalText).keeps.stays fun b => ?_
  cases b with
  | false => exact literalEnd_stays opening
  | true => exact take_stays.bind fun _ => literalEnd_stays opening

/-- The last mark is passed. -/
theorem literalEnd_past (opening : Option TokenKind) {c : Cursor} {s : Reading} {l : Lexeme} {ls : List Lexeme}
    (hc : c.toReading = s) (ha : s.ahead = l :: ls) :
    (literalEnd opening c).2.toReading = s.past (leavesFor l.tokens) [l] ls := by
  unfold literalEnd
  obtain ⟨closing, d, he, hd, -⟩ := (peekRaw_looks 0).keeps.peel hc fun closing => (do
    demand (closing.any (·.touches) && closing.map (·.kind) = opening) .openLiteral
    take : Rule Unit)
  rw [he]
  obtain ⟨-, e, he, hd, -⟩ := (demand_keeps _ _).peel hd fun _ => take
  rw [he]
  exact take_past hd ha

/-- The rule moves past the lexemes of a literal. -/
theorem literalTokens_past {c : Cursor} {run ls : List Lexeme} (h : IsLiteral run) (ha : c.ahead = run ++ ls) :
    (literalTokens c).2.toReading = c.toReading.past (leavesFor (run.flatMap Lexeme.tokens)) run ls := by
  unfold literalTokens
  obtain ⟨opening, d, he, hd, -⟩ := nextKind_looks.keeps.peel (c := c) rfl _
  rw [he]
  rcases h with ⟨first, last, rfl, hq, hk, hl⟩ | ⟨first, body, last, rfl, -, hb, hbl, -, hl⟩
  · obtain ⟨d, he, hd⟩ := take_peel hd ha _
    rw [he]
    obtain ⟨b, d, he, hd, hb⟩ := (seesTouching_looks 0 .literalText).keeps.peel hd _
    rw [he]
    have hn : b = false := by
      refine Bool.eq_false_iff.mpr fun ht => ?_
      obtain ⟨l, hget, hlk, -⟩ := (hb.mp ht).get
      cases hget
      rw [hlk] at hk
      rw [← hk] at hq
      cases hq
    subst hn
    refine (literalEnd_past opening hd rfl).trans ?_
    rw [Reading.past_past]
    simp [leavesFor]
  · obtain ⟨d, he, hd⟩ := take_peel hd ha _
    rw [he]
    obtain ⟨b, d, he, hd, ht⟩ := (seesTouching_looks 0 .literalText).keeps.peel hd _
    rw [he]
    have hy : b = true := ht.mpr (by simp [Outlook.TouchingAt, Reading.outlook, Reading.past, hb, hbl, Lexeme.touches])
    subst hy
    obtain ⟨d, he, hd⟩ := take_peel hd rfl fun _ => literalEnd opening
    refine (congrArg (fun r => r.2.toReading) he).trans ((literalEnd_past opening hd rfl).trans ?_)
    rw [Reading.past_past, Reading.past_past]
    simp [leavesFor]

/-- The tokens of a literal are read as one with either mark. -/
theorem literalTokens_reads : Reads S (fun o => IsOf TokenKind.isQuote o.head) literalTokens (fun _ => true)
    (.either (.literalIn .doubleQuote) (.literalIn .singleQuote)) F := by
  refine .of_past literalTokens_stays fun c hc hp => .inr ?_
  obtain ⟨t, ht, hq⟩ := hp
  obtain ⟨l, ls, ha, rfl⟩ := Outlook.ahead_of_head ht
  have ha : c.ahead = l :: ls := ha
  have hal := hc.aligned
  rw [ha] at hal
  obtain ⟨run, rest, he, hl, hr⟩ := isLiteral_of_aligned hal hq
  have ha : c.ahead = run ++ rest := ha.trans he
  rw [Reading.outlook, ha]
  exact ⟨_, run, rest, rfl, hr, rfl, literalTokens_past hl ha, hl.builds rest c.tail c.reached, fun us o hb _ => hl.unique hb⟩

/-- A string literal starts with a mark. -/
theorem str_leads : Form.str.Leads F (IsOf TokenKind.isQuote) := by
  have hin : ∀ q : TokenKind, q.isQuote = true → (Form.literalIn q).Leads F (IsOf TokenKind.isQuote) := fun q hq =>
    .seq (.one fun t h => ⟨t, rfl, by simpa [of_decide_eq_true h] using hq⟩) (.any _)
  exact .node (.either (hin .doubleQuote rfl) (hin .singleQuote rfl))

/-- A string literal is read as one, whatever follows. -/
theorem stringLiteral_reads (what : String) : Reads S P (stringLiteral what) id .str F := by
  unfold stringLiteral
  refine .when (nextKind_head TokenKind.isQuote) ?_ str_leads ((Fails.reportNext _ rfl).thenPure _)
  exact .thenPure (.node .str literalTokens_reads fun o h => o.head_placed ▸ h.2) rfl

end QueryStubs.Grammar
