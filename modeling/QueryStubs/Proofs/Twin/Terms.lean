import QueryStubs.Grammar.Name
import QueryStubs.Proofs.Twin.Mirrors

/-!
# Words, names and literals side by side

The small rules go the same way at corresponding places. A rule that looks further than at the next lexeme does so only behind a lexeme
that is no semicolon, and so never behind the declaration that is compared.
-/

namespace QueryStubs.Grammar

open QueryStubs

variable {K : Pairing} {T : Rows K} {p q : Prop} {P : Outlook → Prop}

/-- Behind a lexeme that is no semicolon one can look on. -/
theorem Outlook.KindAt.reach {i : Nat} {kind : TokenKind} {o : Outlook} (h : o.KindAt i kind) (hk : kind ≠ .semicolon)
    (hi : K.Reach i o) : K.Reach (i + 1) o := by
  refine hi.imp id fun hi j hj => ?_
  rcases Nat.lt_succ_iff_lt_or_eq.mp hj with hj | rfl
  · exact hi j hj
  · obtain ⟨l, hl, hkind⟩ := Option.map_eq_some_iff.mp h
    exact ⟨l, hl, fun he => hk (hkind.symm.trans he)⟩

/-- Behind the next lexeme, if it is no semicolon, one can look on. -/
theorem Outlook.KindAt.reach_one {kind : TokenKind} {o : Outlook} (h : o.KindAt 0 kind) (hk : kind ≠ .semicolon) : K.Reach 1 o :=
  h.reach hk (K.reach_zero o)

/-- Behind several names one can look on. -/
theorem Pairing.reach_of_names {n : Nat} {o : Outlook} (h : ∀ i < n, o.KindAt i .name) : K.Reach n o :=
  .inr fun j hj => by
    obtain ⟨l, hl, hk⟩ := Option.map_eq_some_iff.mp (h j hj)
    exact ⟨l, hl, fun he => nomatch hk.symm.trans he⟩

/-! ## Words and marks -/

/-- Several names are taken as keywords on both sides. -/
theorem takeKeywords_mirrors (n : Nat) :
    Mirrors T p q (fun o => ∀ i < n + 1, o.KindAt i .name) (takeKeywords (n + 1)) (takeKeywords (n + 1)) fun _ _ => Anywhere := by
  induction n generalizing p with
  | zero =>
    exact (advance_mirrors (fun _ => rfl) (fun _ h => Pairing.reach_of_names h) fun _ _ _ _ _ => trivial).bind fun _ _ => .pure fun _ h => h
  | succ n ih =>
    refine Mirrors.bind (q := q) (advance_mirrors (Q := fun o => ∀ i < n + 1, o.KindAt i .name) (fun _ => rfl) (fun o h => ?_) ?_)
      fun _ _ => ih
    · exact (h 0 (Nat.succ_pos _)).reach_one nofun
    · intro l ls tail place h i hi
      simpa [Outlook.KindAt] using h (i + 1) (Nat.succ_lt_succ hi)

theorem accept_keeping (kind : TokenKind) : Keeping (accept kind) := by
  refine Keeping.bind (((peek_finds 0).keeping.bind fun _ _ hn => hn).bind fun _ _ hn => hn) fun b => ?_
  cases b with
  | false => exact fun _ hn => hn
  | true => exact (advance_keeping fun _ => rfl).bind fun _ _ hn => hn

theorem accept_mirrors (kind : TokenKind) (hk : kind ≠ .semicolon) : Mirrors T p p P (accept kind) (accept kind) Same :=
  .test (sees_mirrors kind) (sees_looks kind).keeps ((take_mirrors fun _ h => h.2.reach_one hk).bind fun _ _ => .done true) (.done false)

theorem expect_mirrors (kind : TokenKind) (what : String) (hk : kind ≠ .semicolon) :
    Mirrors T p p P (expect kind what) (expect kind what) Same :=
  (accept_mirrors kind hk).andThen fun _ => .ite (.done true) ((report_mirrors (by decide)).bind fun _ _ => .done false)

/-- A word that comes next is taken as a keyword. -/
theorem takeWord_mirrors {word : String} : Mirrors T p p (fun o => P o ∧ o.WordAt 0 word) takeKeyword takeKeyword fun _ _ => Anywhere :=
  takeKeyword_mirrors fun _ h => h.2.kindAt.reach_one nofun

theorem acceptWordOf_mirrors (words : List String) : Mirrors T p p P (acceptWordOf words) (acceptWordOf words) Same := by
  induction words generalizing P with
  | nil => exact .done false
  | cons word words ih =>
    exact .test (seesWord_mirrors word) (seesWordAt_looks 0 word).keeps (takeWord_mirrors.bind fun _ _ => .done true) ih

theorem expectWordOf_mirrors (words : List String) : Mirrors T p p P (expectWordOf words) (expectWordOf words) Same :=
  (acceptWordOf_mirrors words).andThen fun _ => .ite (.done true) ((report_mirrors (by decide)).bind fun _ _ => .done false)

theorem expectWord_mirrors (word : String) : Mirrors T p p P (expectWord word) (expectWord word) Same := expectWordOf_mirrors [word]

/-! ## What is skipped -/

/-- The same lexemes are skipped, up to the end or to where it is to stop. It must stop at the semicolon of the declaration that is
compared. -/
theorem skipUntil_mirrors {stop : Rule Bool} {S : Outlook → Prop} (h : ∀ T : Rows K, Mirrors T p p Anywhere stop stop Same)
    (hk : Keeps stop fun b o => b = true ↔ S o) (hS : K.whole ∨ ∀ o, o.KindAt 0 .semicolon → S o) :
    Mirrors T p p P (skipUntil stop) (skipUntil stop) fun _ _ o => o.ahead = [] ∨ S o := by
  have hstep : ∀ a b : Unit, Mirrors T.spoil p p (fun _ => a = b) (skipStep stop a) (skipStep stop b) fun r s o =>
      r.1 = s.1 ∧ if r.1 = true then r.2 = s.2 else o.ahead = [] ∨ S o := by
    intro a b
    refine .test atEnd_mirrors atEnd_looks.keeps (.pure fun o ho => ⟨rfl, .inl ho.2⟩) ?_
    refine .test (h _).anywhere hk (.pure fun o ho => ⟨rfl, .inr ho.2⟩) ?_
    refine (take_mirrors fun o ho => ?_).bind fun _ _ => lookPast_mirrors.bind fun _ _ => .pure fun _ _ => ⟨rfl, rfl⟩
    refine hS.imp id fun hS j hj => ?_
    obtain ⟨l, ls, hl⟩ := List.exists_cons_of_ne_nil ho.1.2
    obtain rfl := Nat.lt_one_iff.mp hj
    exact ⟨l, by rw [hl]; rfl, fun hkind => ho.2 (hS o (by simp [Outlook.KindAt, hl, hkind]))⟩
  refine .test atEnd_mirrors atEnd_looks.keeps (.pure fun o ho => .inl ho.2) (.test (h _).anywhere hk (.pure fun o ho => .inr ho.2) ?_)
  exact errorNode_mirrors (repeatRule_mirrors hstep () ()) fun _ _ => rfl

/-! ## Names and literals -/

/-- A colon that touches is a colon, so what comes behind it can be seen. -/
theorem Outlook.TouchingAt.before {i : Nat} {o : Outlook} (h : o.TouchingAt i .colon) :
    (Pairing.before o.ahead (i + 1)).any (fun m => m.kind = .colon) = true := by
  obtain ⟨l, hl, hk⟩ := Option.map_eq_some_iff.mp h.kindAt
  change o.ahead[i]?.any _ = true
  simp [hl, hk]

theorem qname_mirrors : Mirrors T p p P qname qname fun _ _ => Anywhere := by
  have hsecond : Mirrors T p p (fun o => (Anywhere o ∧ o.TouchingAt 0 .colon) ∧ o.TouchingAt 1 .name) (do take; take) (do take; take)
      fun _ _ => Anywhere := by
    refine Mirrors.bind (q := p) (advance_mirrors (Q := fun o => o.KindAt 0 .name) (fun _ => rfl) (fun o h => ?_) ?_) fun _ _ =>
      take_mirrors fun o h => h.reach_one nofun
    · exact h.1.2.kindAt.reach_one nofun
    · intro l ls tail place h
      exact h.2.kindAt
  have hinside : Mirrors T p p (fun o => o.KindAt 0 .name)
      (do take; if ← seesTouching 0 .colon then if ← seesTouching 1 .name then take; take)
      (do take; if ← seesTouching 0 .colon then if ← seesTouching 1 .name then take; take) fun _ _ => Anywhere := by
    refine (take_mirrors fun o h => h.reach_one nofun).bind fun _ _ => ?_
    refine .test (seesTouching_mirrors 0 .colon (fun o _ => K.reach_zero o) (.inl rfl)) (seesTouching_looks 0 .colon).keeps ?_
      (.pure fun _ _ => trivial)
    refine .test (seesTouching_mirrors 1 .name (fun o h => h.2.kindAt.reach_one nofun) (.inr (.inr fun o h => h.2.before)))
      (seesTouching_looks 1 .name).keeps hsecond (.pure fun _ _ => trivial)
  refine .look (sees_mirrors .name) (sees_looks .name).keeps fun b => (demand_mirrors b b .unexpectedKind).bind fun _ _ => ?_
  exact node_mirrors hinside (by decide) (by decide) fun o h => (h.2.2.mp h.1).placed

theorem expectQName_mirrors (what : String) : Mirrors T p p P (expectQName what) (expectQName what) Same :=
  .test (sees_mirrors .name) (sees_looks .name).keeps (qname_mirrors.bind fun _ _ => .done true)
    ((report_mirrors (by decide)).bind fun _ _ => .done false)

theorem expectNCName_mirrors (what : String) : Mirrors T p p P (expectNCName what) (expectNCName what) Same := by
  refine .test (sees_mirrors .name) (sees_looks .name).keeps ?_ ((report_mirrors (by decide)).bind fun _ _ => .done false)
  refine .test (seesTouching_mirrors 1 .colon (fun o h => h.2.reach_one nofun) (.inl rfl)) (seesTouching_looks 1 .colon).keeps ?_ ?_
  · exact (report_mirrors (by decide)).bind fun _ _ => .done false
  · exact (take_mirrors fun o h => h.1.2.reach_one nofun).bind fun _ _ => .done true

/-- A mark of a literal comes next. -/
def Outlook.QuoteAhead (o : Outlook) : Prop := ∃ kind, o.KindAt 0 kind ∧ kind.isQuote = true

/-- A mark of a literal is no semicolon. -/
theorem ne_semicolon_of_isQuote {k : TokenKind} (hk : k.isQuote = true) : k ≠ .semicolon := by
  rintro rfl
  cases hk

/-- The mark that ends a literal is the one that starts it. -/
theorem literalEnd_mirrors (opening : Option TokenKind) : Mirrors T p p (fun _ => ∃ k, opening = some k ∧ k.isQuote = true)
    (literalEnd opening) (literalEnd opening) fun _ _ => Anywhere := by
  refine ((peekRaw_finds 0).mirrors fun o _ => K.reach_zero o).bind fun a b => (demand_mirrors _ _ .openLiteral).bind fun _ _ =>
    take_mirrors fun o h => ?_
  obtain ⟨hd, ⟨k, rfl, hq⟩, ha, -⟩ := h
  simp only [Bool.and_eq_true, decide_eq_true_eq] at hd
  have hk : o.KindAt 0 k := by
    rw [Outlook.KindAt, ← ha]
    exact hd.2
  exact hk.reach_one (ne_semicolon_of_isQuote hq)

/-- So a literal ends before the semicolon. -/
theorem literalTokens_mirrors : Mirrors T p p Outlook.QuoteAhead literalTokens literalTokens fun _ _ => Anywhere := by
  refine .look nextKind_mirrors nextKind_looks.keeps fun opening => ?_
  refine Mirrors.bind (q := p)
    (advance_mirrors (Q := fun _ => ∃ k, opening = some k ∧ k.isQuote = true) (fun _ => rfl) (fun o h => ?_) ?_) fun _ _ => ?_
  · obtain ⟨⟨k, hk, hq⟩, -⟩ := h
    exact hk.reach_one (ne_semicolon_of_isQuote hq)
  · rintro l ls tail place ⟨⟨k, hk, hq⟩, ho⟩
    exact ⟨k, ho.trans hk, hq⟩
  refine .test (seesTouching_mirrors 0 .literalText (fun o _ => K.reach_zero o) (.inr (.inl rfl)))
    (seesTouching_looks 0 .literalText).keeps ?_ ((literalEnd_mirrors opening).of_imp fun _ h => h.1)
  exact Mirrors.bind (q := p) (advance_mirrors (fun _ => rfl) (fun o h => h.2.kindAt.reach_one (by decide)) fun _ _ _ _ h => h.1) fun _ _ =>
    literalEnd_mirrors opening

theorem stringLiteral_mirrors (what : String) : Mirrors T p p P (stringLiteral what) (stringLiteral what) Same := by
  refine .look nextKind_mirrors nextKind_looks.keeps fun kind => ?_
  cases hk : kind.any TokenKind.isQuote with
  | true =>
    rw [if_pos rfl]
    refine (node_mirrors literalTokens_mirrors (by decide) (by decide) fun o h => ?_).bind fun _ _ => .done true
    obtain ⟨k, rfl⟩ := Option.isSome_iff_exists.mp (Option.isSome_of_any hk)
    exact ⟨k, Outlook.KindAt.placed h.2.symm, hk⟩
  | false =>
    rw [if_neg nofun]
    exact (report_mirrors (by decide)).bind fun _ _ => .done false

end QueryStubs.Grammar
