import QueryStubs.Grammar.Setter
import QueryStubs.Proofs.Reader.Safe

/-!
# Safe rules for words, names, literals and what is skipped

The rules that the declarations are made of. All of them start and end aligned; the bounds on their looks are the numbers that
`Safe.bind` adds up.
-/

namespace QueryStubs.Grammar

open QueryStubs

namespace Outlook

variable {o : Outlook}

/-- The lexeme of a kind that comes next, and what follows it. -/
theorem KindAt.cons {kind : TokenKind} (h : o.KindAt 0 kind) : ∃ l ls, o.ahead = l :: ls ∧ l.kind = kind := by
  unfold KindAt at h
  cases ha : o.ahead with
  | nil => simp [ha] at h
  | cons l ls => exact ⟨l, ls, rfl, by simpa [ha] using h⟩

/-- A word is a name. -/
theorem WordAt.kindAt {i : Nat} {word : String} (h : o.WordAt i word) : o.KindAt i .name := by
  unfold WordAt at h
  unfold KindAt
  cases ha : o.ahead[i]? with
  | none => simp [ha] at h
  | some l =>
    simp only [ha, Option.any_some, Lexeme.isWord, Token.isWord, Bool.and_eq_true, decide_eq_true_eq] at h
    simp [Lexeme.kind, h.1]

/-- What touches is of its kind. -/
theorem TouchingAt.kindAt {i : Nat} {kind : TokenKind} (h : o.TouchingAt i kind) : o.KindAt i kind := by
  unfold TouchingAt at h
  unfold KindAt
  cases ha : o.ahead[i]? with
  | none => simp [ha] at h
  | some l => simp_all

/-- Placing trivia does not change which kinds are ahead. -/
theorem KindAt.placed {i : Nat} {kind : TokenKind} (h : o.KindAt i kind) : o.placed.KindAt i kind := by
  obtain ⟨_ | ⟨l, ls⟩, tail, reached⟩ := o
  · exact h
  · cases i <;> exact h

/-- Placing trivia takes no lexeme. -/
theorem length_placed (o : Outlook) : o.placed.ahead.length = o.ahead.length := by
  obtain ⟨_ | ⟨l, ls⟩, tail, reached⟩ := o <;> rfl

/-- Placing trivia leaves an aligned outlook aligned. -/
theorem Aligned.placed (h : o.Aligned) : o.placed.Aligned := by
  obtain ⟨_ | ⟨l, ls⟩, tail, reached⟩ := o
  · exact h
  · exact Grammar.Aligned.bare h

/-- Once the trivia behind the last lexeme are placed, nothing is left. -/
theorem tail_placed {o : Outlook} (h : o.ahead = []) : o.placed.ahead = [] ∧ o.placed.tail = [] := by
  obtain ⟨_ | ⟨l, ls⟩, tail, reached⟩ := o
  · exact ⟨rfl, rfl⟩
  · cases h

/-- Placing trivia changes nothing about the literal that a reader may stand in. -/
theorem Within.placed (h : o.Within) : o.placed.Within := by
  obtain ⟨_ | ⟨l, ls⟩, tail, reached⟩ := o
  · exact h
  · exact Grammar.Within.bare h

/-- Where a lexeme comes next that belongs to no literal, the outlook is aligned. -/
theorem Within.aligned {kind : TokenKind} (h : o.Within) (hk : o.KindAt 0 kind) (hp : kind.isPlain = true) :
    o.Aligned := by
  obtain ⟨l, ls, ha, rfl⟩ := hk.cons
  unfold Outlook.Within at h
  unfold Outlook.Aligned
  rw [ha] at h ⊢
  exact Grammar.Within.aligned h hp

/-- Several names come next. -/
def Names (n : Nat) (o : Outlook) : Prop := o.Aligned ∧ ∀ i < n, o.KindAt i .name

/-- Placing trivia does not change that names come next. -/
theorem Names.placed {n : Nat} (h : o.Names n) : o.placed.Names n := ⟨Aligned.placed h.1, fun i hi => (h.2 i hi).placed⟩

/-- At the end of the source the outlook is aligned. -/
theorem aligned_of_nil (h : o.ahead = []) : o.Aligned := by
  unfold Outlook.Aligned
  rw [h]
  exact .nil

end Outlook

/-! ## Words and marks -/

/-- Taking a lexeme that belongs to no literal keeps the outlook aligned. -/
theorem take_plain (kind : TokenKind) (hk : kind.isPlain = true) :
    Safe 0 (fun o => o.Aligned ∧ o.KindAt 0 kind) take fun _ => Outlook.Aligned := by
  refine take_safe.of_imp fun o ⟨ha, h⟩ => ?_
  obtain ⟨l, ls, hl, rfl⟩ := h.cons
  unfold Outlook.Aligned at ha
  rw [hl] at ha
  exact ⟨l, ls, hl, ha.tail hk⟩

theorem takeKeyword_plain :
    Safe 0 (fun o => o.Aligned ∧ o.KindAt 0 .name) takeKeyword fun _ => Outlook.Aligned := by
  refine takeKeyword_safe.of_imp fun o ⟨ha, h⟩ => ?_
  obtain ⟨l, ls, hl, hk⟩ := h.cons
  unfold Outlook.Aligned at ha
  rw [hl] at ha
  exact ⟨l, ls, hl, hk, ha.tail (by rw [hk]; rfl)⟩

/-- The first of several names that come next can be taken as a keyword, and the others come next then. -/
theorem takeKeyword_names (n k : Nat) :
    Safe 0 (fun o => o.Names (n + 1) ∧ o.ahead.length = k) takeKeyword fun _ o => o.Names n ∧ o.ahead.length < k := by
  refine takeKeyword_safe.of_imp fun o ⟨⟨ha, h⟩, hk⟩ => ?_
  obtain ⟨l, ls, hl, hn⟩ := (h 0 (Nat.succ_pos n)).cons
  unfold Outlook.Aligned at ha
  rw [hl] at ha hk
  refine ⟨l, ls, hl, hn, ⟨ha.tail (by rw [hn]; rfl), fun i hi => ?_⟩, ?_⟩
  · simpa [Outlook.KindAt, hl] using h (i + 1) (Nat.succ_lt_succ hi)
  · simp only [List.length_cons] at hk ⊢
    omega

/-- Several names that come next can be taken as keywords. -/
theorem takeKeywords_names (n : Nat) : Safe 0 (Outlook.Names n) (takeKeywords n) fun _ => Outlook.Aligned := by
  induction n with
  | zero => exact Safe.pure 0 _ fun _ h => h.1
  | succ n ih => exact Safe.of_length fun k => Safe.bind 0 0 (takeKeyword_names n k) fun _ => ih.of_imp fun _ h => h.1

/-- A lexeme that is accepted is taken. -/
theorem accept_short (kind : TokenKind) (hk : kind.isPlain = true) (k : Nat) :
    Safe 1 (fun o => o.Aligned ∧ o.ahead.length < k + 1) (accept kind)
      fun b o => o.Aligned ∧ (b = true → o.ahead.length < k) := by
  refine Safe.test 1 0 (sees_looks kind).safe ?_ (Safe.pure 0 _ fun _ h => ⟨h.1.1, fun hb => nomatch hb⟩)
  refine Safe.bind 0 0 (Q := fun _ o => o.Aligned ∧ o.ahead.length < k) ?_ fun _ => Safe.pure 0 _ fun _ h => ⟨h.1, fun _ => h.2⟩
  refine take_safe.of_imp fun o ⟨⟨ha, hl⟩, h⟩ => ?_
  obtain ⟨l, ls, hc, rfl⟩ := h.cons
  unfold Outlook.Aligned at ha
  rw [hc] at ha hl
  exact ⟨l, ls, hc, ha.tail hk, Nat.lt_of_succ_lt_succ hl⟩

theorem accept_plain (kind : TokenKind) (hk : kind.isPlain = true) :
    Safe 1 Outlook.Aligned (accept kind) fun _ => Outlook.Aligned := by
  intro c ho ha hn hf
  obtain ⟨hr, hs, hq⟩ := accept_short kind hk c.ahead.length c ho ⟨ha, Nat.lt_succ_self _⟩ hn hf
  exact ⟨hr, hs, hq.1⟩

theorem expect_plain (kind : TokenKind) (what : String) (hk : kind.isPlain = true) :
    Safe 1 Outlook.Aligned (expect kind what) fun _ => Outlook.Aligned :=
  Safe.bind 1 0 (accept_plain kind hk) fun _ => Safe.ite (fun _ => Safe.pure 0 _ fun _ h => h)
    fun _ => Safe.bind 0 0 (report_safe _ _) fun _ => Safe.pure 0 _ fun _ h => h

theorem acceptWordOf_safe (words : List String) :
    Safe words.length Outlook.Aligned (acceptWordOf words) fun _ => Outlook.Aligned := by
  induction words with
  | nil => exact Safe.pure 0 _ fun _ h => h
  | cons word words ih =>
    refine (Safe.test 1 words.length (seesWordAt_looks 0 word).safe ?_ (ih.of_imp fun _ h => h.1)).mono (by simp only [List.length_cons]; omega)
    refine (Safe.bind 0 0 (takeKeyword_plain.of_imp fun _ h => ⟨h.1, h.2.kindAt⟩) fun _ => ?_).mono (Nat.zero_le _)
    exact Safe.pure 0 _ fun _ h => h

theorem expectWordOf_safe (words : List String) :
    Safe words.length Outlook.Aligned (expectWordOf words) fun _ => Outlook.Aligned :=
  Safe.bind words.length 0 (acceptWordOf_safe words) fun _ => Safe.ite (fun _ => Safe.pure 0 _ fun _ h => h)
    fun _ => Safe.bind 0 0 (report_safe _ _) fun _ => Safe.pure 0 _ fun _ h => h

theorem expectWord_safe (word : String) : Safe 1 Outlook.Aligned (expectWord word) fun _ => Outlook.Aligned :=
  expectWordOf_safe [word]

/-- Rules that are done in order one after the other, as long as they are complete. -/
theorem andThen_safe {n m : Nat} {P Q R : Outlook → Prop} {x y : Rule Bool} (hx : Safe n P x fun _ => Q)
    (hy : Safe m Q y fun _ => R) (hQ : ∀ o, Q o → R o) :
    Safe (n + m) P (x >>= fun b => if b = true then y else pure false) fun _ => R :=
  Safe.bind n m hx fun _ => Safe.ite (fun _ => hy) fun _ => Safe.pure m _ hQ

/-! ## What is skipped -/

/-- Whatever comes next can be taken, and a reader stays within the literal it may be in. -/
theorem takeAny_safe (k : Nat) :
    Safe 0 (fun o => (o.Within ∧ o.ahead.length = k) ∧ o.ahead ≠ []) take fun _ o => o.Within ∧ o.ahead.length < k := by
  refine take_safe.of_imp fun o ⟨⟨hw, hk⟩, hne⟩ => ?_
  obtain ⟨l, ls, hl⟩ := List.exists_cons_of_ne_nil hne
  unfold Outlook.Within at hw
  rw [hl] at hw hk
  exact ⟨l, ls, hl, hw.tail, by simp only [List.length_cons] at hk ⊢; omega⟩

/-- Skipping ends at the end of the source or where it is to stop. -/
theorem skipUntil_safe {n : Nat} {stop : Rule Bool} {S : Outlook → Prop} (hn : n + n ≤ fullPatience)
    (h : Looks n stop fun b o => b = true → S o) :
    Safe (n + (n + n)) Outlook.Within (skipUntil stop) fun _ o => o.Within ∧ (o.ahead = [] ∨ S o) := by
  have hstep : ∀ (a : Unit) k, Safe n (fun o => o.Within ∧ o.ahead.length = k) (skipStep stop a) fun r o =>
      if r.1 = true then o.Within ∧ o.ahead.length < k else o.Within ∧ (o.ahead = [] ∨ S o) := by
    intro a k
    refine (Safe.test 0 n atEnd_looks.safe (Safe.pure n _ fun o h => ⟨h.1.1, .inl h.2⟩) ?_).mono (Nat.le_of_eq (Nat.zero_add n))
    refine Safe.bind n 0 h.safe fun b => Safe.ite (fun hb => Safe.pure 0 _ fun o ho => ⟨ho.1.1.1, .inr (ho.2 hb)⟩) fun _ => ?_
    refine Safe.bind 0 0 ((takeAny_safe k).of_imp fun _ ho => ho.1) fun _ => ?_
    exact Safe.bind 0 0 lookPast_looks.safe fun _ => Safe.pure 0 _ fun _ ho => ho.1
  refine (Safe.test 0 (n + (n + n)) atEnd_looks.safe (Safe.pure _ _ fun o h => ⟨h.1, .inl h.2⟩) ?_).mono
    (Nat.le_of_eq (Nat.zero_add _))
  refine Safe.bind n (n + n) h.safe fun b => Safe.ite (fun hb => Safe.pure _ _ fun o ho => ⟨ho.1.1, .inr (ho.2 hb)⟩) fun _ => ?_
  exact node_safe .error (repeatRule_safe hn hstep ()) fun _ ho => ho.1.1.placed

/-! ## Names and literals -/

/-- A name, and a second one after a colon where both touch. -/
theorem qname_safe : Safe 3 (fun o => o.Aligned ∧ o.KindAt 0 .name) qname fun _ => Outlook.Aligned := by
  have hsecond : Safe 0 (fun o => (o.Aligned ∧ o.TouchingAt 0 .colon) ∧ o.TouchingAt 1 .name) (do take; take)
      fun _ => Outlook.Aligned := by
    refine Safe.bind 0 0 (take_safe.of_imp fun o h => ?_) fun _ => take_plain .name rfl
    obtain ⟨⟨ha, hc⟩, hn⟩ := h
    obtain ⟨l, ls, hl, hk⟩ := hc.kindAt.cons
    have hn := hn.kindAt
    unfold Outlook.Aligned at ha
    unfold Outlook.KindAt at hn
    rw [hl] at ha hn
    exact ⟨l, ls, hl, ha.tail (by rw [hk]; rfl), hn⟩
  have hinside : Safe 2 (fun o => o.Aligned ∧ o.KindAt 0 .name)
      (do take; if ← seesTouching 0 .colon then if ← seesTouching 1 .name then take; take) fun _ => Outlook.Aligned := by
    refine Safe.bind 0 2 (take_plain .name rfl) fun _ => ?_
    refine Safe.test 1 1 (seesTouching_looks 0 .colon).safe ?_ (Safe.pure 1 _ fun _ h => h.1)
    exact Safe.test 1 0 (seesTouching_looks 1 .name).safe hsecond (Safe.pure 0 _ fun _ h => h.1.1)
  refine Safe.bind 1 2 (sees_looks .name).safe fun _ => Safe.bind 0 2 (demand_safe _ fun _ h => h.2.mpr h.1.2) fun _ => ?_
  exact node_safe .qname hinside fun _ h => ⟨h.1.1.placed, h.1.2.placed⟩

theorem expectQName_safe (what : String) : Safe 4 Outlook.Aligned (expectQName what) fun _ => Outlook.Aligned :=
  Safe.test 1 3 (sees_looks .name).safe (Safe.bind 3 0 qname_safe fun _ => Safe.pure 0 _ fun _ h => h)
    (Safe.bind 0 3 (report_safe _ _) fun _ => Safe.pure 3 _ fun _ h => h.1)

theorem expectNCName_safe (what : String) : Safe 2 Outlook.Aligned (expectNCName what) fun _ => Outlook.Aligned := by
  refine Safe.test 1 1 (sees_looks .name).safe ?_ (Safe.bind 0 1 (report_safe _ _) fun _ => Safe.pure 1 _ fun _ h => h.1)
  refine Safe.test 1 0 (seesTouching_looks 1 .colon).safe ?_ ?_
  · exact Safe.bind 0 0 (report_safe _ _) fun _ => Safe.pure 0 _ fun _ h => h.1.1
  · exact Safe.bind 0 0 ((take_plain .name rfl).of_imp fun _ h => h.1) fun _ => Safe.pure 0 _ fun _ h => h

/-- The last mark of a literal is looked at and taken. -/
def literalEnd (opening : Option TokenKind) : Rule Unit := do
  let closing ← peekRaw 0
  demand (closing.any (·.touches) && closing.map (·.kind) = opening) .openLiteral
  take

/-- It is safe where a mark like the first one touches what comes before it. -/
theorem literalEnd_safe (opening : Option TokenKind) : Safe 1
    (fun o => ∃ q last rest, opening = some q ∧ o.ahead = last :: rest ∧ last.kind = q ∧ last.touches = true ∧ Aligned rest)
    (literalEnd opening) fun _ => Outlook.Aligned := by
  refine Safe.bind 1 0 (peekRaw_looks 0).safe fun closing => Safe.bind 0 0 (demand_safe _ ?_) fun _ => take_safe.of_imp ?_
  · rintro o ⟨⟨q, last, rest, rfl, hl, rfl, ht, -⟩, rfl⟩
    simp [hl, ht]
  · rintro o ⟨⟨q, last, rest, -, hl, -, -, hr⟩, -⟩
    exact ⟨last, rest, hl, hr⟩

/-- The tokens of a literal: what is ahead is aligned, so the mark that ends it is there. -/
theorem literalTokens_safe :
    Safe 3 (fun o => o.Aligned ∧ ∃ kind, o.KindAt 0 kind ∧ kind.isQuote = true) literalTokens fun _ => Outlook.Aligned := by
  refine Safe.bind 1 2 nextKind_looks.safe fun opening => ?_
  refine Safe.bind 0 2 (Q := fun _ o => ∃ q, opening = some q ∧ q.isQuote = true ∧ Opened q o.ahead) ?_ fun _ => ?_
  · refine take_safe.of_imp fun o ⟨⟨ha, kind, hk, hq⟩, ho⟩ => ?_
    obtain ⟨l, ls, hl, rfl⟩ := hk.cons
    unfold Outlook.Aligned at ha
    rw [hl] at ha ho
    exact ⟨l, ls, hl, l.kind, ho, hq, ha.opened hq⟩
  refine Safe.test 1 1 (seesTouching_looks 0 .literalText).safe (Safe.bind 0 1 (take_safe.of_imp ?_) fun _ => literalEnd_safe opening)
    ((literalEnd_safe opening).of_imp ?_)
  · rintro o ⟨⟨q, rfl, hq, ⟨last, rest, hl, rfl, -, -⟩ | ⟨body, last, rest, hl, -, -, hk, ht, hr⟩⟩, hb⟩
    · obtain ⟨l, ls, hl', hk⟩ := hb.kindAt.cons
      rw [hl] at hl'
      cases hl'
      rw [hk] at hq
      cases hq
    · exact ⟨body, last :: rest, hl, q, last, rest, rfl, rfl, hk, ht, hr⟩
  · rintro o ⟨⟨q, rfl, -, ⟨last, rest, hl, hk, ht, hr⟩ | ⟨body, last, rest, hl, hb, hbt, -⟩⟩, hn⟩
    · exact ⟨q, last, rest, rfl, hl, hk, ht, hr⟩
    · exact absurd (by simp [Outlook.TouchingAt, hl, hb, hbt]) hn

theorem stringLiteral_safe (what : String) : Safe 4 Outlook.Aligned (stringLiteral what) fun _ => Outlook.Aligned := by
  refine Safe.bind 1 3 nextKind_looks.safe fun kind => Safe.ite (fun hb => ?_) fun _ => ?_
  · refine Safe.bind 3 0 (node_safe .str literalTokens_safe fun o h => ⟨h.1.placed, ?_⟩) fun _ => Safe.pure 0 _ fun _ h => h
    obtain ⟨k, rfl⟩ := Option.isSome_iff_exists.mp (Option.isSome_of_any hb)
    exact ⟨k, Outlook.KindAt.placed h.2.symm, hb⟩
  · exact Safe.bind 0 3 (report_safe _ _) fun _ => Safe.pure 3 _ fun _ h => h.1

end QueryStubs.Grammar
