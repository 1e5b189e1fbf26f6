import QueryStubs.Proofs.Reader.Safe

/-!
# The account of a reading

What a reading reports depends on little of what it holds: on the lexemes ahead, without the trivia in front of them, on the places and on
what was reported before. This is its `Account`, which is all the same whether trivia are placed, nodes are built or lexemes are looked at.

`Told B a b` says that a row of moves leads from the account `a` to `b`, of which there are few: a lexeme is taken; what is missing or
cannot be used is reported at what comes next; a function outside the namespace of its module is reported at its name, which is taken right
after; and a bracket that is never closed is reported at the end of the source. The ranges of the brackets that may be so reported are those
that `B` holds of.

Whatever is reported on the way is about what comes next or about such a bracket (`Told.reports`), and the last report stays where it is or
comes to a place that is ahead (`Told.lastReport`).
-/

namespace QueryStubs

/-- The kinds that are reported at what comes next: the errors that are about no bracket and not about the order of declarations. -/
def DiagnosticKind.isPointed (kind : DiagnosticKind) : Bool :=
  kind.severity = .error && !kind.isStructural && kind ≠ .misplacedDeclaration

/-- Whether a kind says of such a bracket that it was never closed. In values that is said of square brackets as of round ones. -/
def DiagnosticKind.isAbout : DiagnosticKind → TokenKind → Bool
  | .unclosedBody, bracket => bracket = .braceOpen
  | .unclosedParamList, bracket => bracket = .parenOpen
  | .unclosedParens, bracket => bracket = .parenOpen || bracket = .bracketOpen
  | _, _ => false

namespace Grammar

/-- What the reports of a reading depend on. -/
structure Account where
  ahead : List Lexeme
  limit : Nat
  reached : Nat
  reports : List Diagnostic
  lastReport : Option Nat

namespace Account

/-- The range of what comes next. -/
def next (a : Account) : Span :=
  match a.ahead with
  | [] => .empty a.limit
  | l :: _ => l.span

/-- The account behind the next lexeme, if there is one. -/
def advance (a : Account) : Account :=
  match a.ahead with
  | [] => a
  | l :: ls => { a with ahead := ls, reached := l.span.stop }

/-- The account after a report that counts as made at a place. -/
def tell (place : Nat) (report : Diagnostic) (a : Account) : Account :=
  { a with reports := a.reports ++ [report], lastReport := some place }

/-- The account after a report that counts as made at what comes next. -/
def tellNext (report : Diagnostic) (a : Account) : Account := a.tell a.next.start report

/-- Whether the next report counts, because the last one was made elsewhere. -/
def IsOpen (a : Account) : Prop := a.lastReport ≠ some a.next.start

/-- The lexemes ahead stand in order. -/
def Ordered (a : Account) : Prop := Grammar.Ordered a.limit a.reached a.ahead

/-- The opening brackets ahead are among those that `B` holds of. -/
def Opens (B : TokenKind → Span → Prop) (a : Account) : Prop := ∀ l ∈ a.ahead, l.kind.isOpening = true → B l.kind l.span

variable {a : Account} {l : Lexeme} {ls : List Lexeme}

theorem next_of_nil (h : a.ahead = []) : a.next = .empty a.limit := by
  rw [next, h]

theorem next_of_cons (h : a.ahead = l :: ls) : a.next = l.span := by
  rw [next, h]

theorem advance_of_nil (h : a.ahead = []) : a.advance = a := by
  rw [advance, h]

theorem advance_of_cons (h : a.ahead = l :: ls) : a.advance = { a with ahead := ls, reached := l.span.stop } := by
  rw [advance, h]

@[simp] theorem limit_advance (a : Account) : a.advance.limit = a.limit := by
  unfold advance
  split <;> rfl

@[simp] theorem reports_advance (a : Account) : a.advance.reports = a.reports := by
  unfold advance
  split <;> rfl

@[simp] theorem lastReport_advance (a : Account) : a.advance.lastReport = a.lastReport := by
  unfold advance
  split <;> rfl

@[simp] theorem next_tell (place : Nat) (report : Diagnostic) (a : Account) : (a.tell place report).next = a.next := rfl

/-- What comes next is at the end of the source or one of the lexemes ahead. -/
theorem next_cases (a : Account) : a.next = .empty a.limit ∨ ∃ l ∈ a.ahead, a.next = l.span := by
  unfold next
  split
  · exact .inl rfl
  · next l ls h => exact .inr ⟨l, h ▸ List.mem_cons_self .., rfl⟩

/-- Moving past a lexeme drops it. -/
theorem ahead_advance (a : Account) : a.advance.ahead <:+ a.ahead := by
  unfold advance
  split
  · exact List.suffix_refl _
  · next l ls h => exact h ▸ List.suffix_cons l ls

/-- What comes next starts within the source, behind what was reached. -/
theorem Ordered.next (h : a.Ordered) : a.reached ≤ a.next.start ∧ a.next.start ≤ a.next.stop ∧ a.next.stop ≤ a.limit := by
  have hlimit : ∀ {ls : List Lexeme} {place : Nat}, Grammar.Ordered a.limit place ls → place ≤ a.limit := by
    intro ls
    induction ls with
    | nil => exact fun h => h
    | cons l ls ih => exact fun ⟨h1, h2, h3⟩ => Nat.le_trans h1 (Nat.le_trans (Nat.le_of_lt h2) (ih h3))
  unfold Ordered at h
  cases ha : a.ahead with
  | nil =>
    rw [ha] at h
    rw [next_of_nil ha]
    exact ⟨h, Nat.le_refl _, Nat.le_refl _⟩
  | cons l ls =>
    rw [ha] at h
    rw [next_of_cons ha]
    exact ⟨h.1, Nat.le_of_lt h.2.1, hlimit h.2.2⟩

/-- Where a lexeme comes next, it is not empty. -/
theorem Ordered.next_lt (h : a.Ordered) (hne : a.ahead ≠ []) : a.next.start < a.next.stop := by
  obtain ⟨l, ls, ha⟩ := List.exists_cons_of_ne_nil hne
  unfold Ordered at h
  rw [ha] at h
  rw [next_of_cons ha]
  exact h.2.1

/-- Behind the next lexeme the others are still in order, and they start behind it. -/
theorem Ordered.advance (h : a.Ordered) : a.advance.Ordered ∧ (a.ahead ≠ [] → a.next.stop ≤ a.advance.next.start) := by
  cases ha : a.ahead with
  | nil =>
    rw [advance_of_nil ha]
    exact ⟨h, fun hne => absurd rfl hne⟩
  | cons l ls =>
    have hb : a.advance.Ordered := by
      unfold Ordered at h ⊢
      rw [ha] at h
      rw [advance_of_cons ha]
      exact h.2.2
    refine ⟨hb, fun _ => ?_⟩
    have hreached : a.advance.reached = a.next.stop := by rw [advance_of_cons ha, next_of_cons ha]
    exact hreached ▸ hb.next.1

/-- Every lexeme ahead starts where what comes next starts, or behind it, and is not empty. -/
theorem Ordered.mem (h : a.Ordered) (hl : l ∈ a.ahead) :
    a.next.start ≤ l.span.start ∧ l.span.start < l.span.stop ∧ l.span.stop ≤ a.limit := by
  obtain ⟨ahead, limit, reached, reports, lastReport⟩ := a
  induction ahead generalizing reached with
  | nil => cases hl
  | cons k ks ih =>
    have hb := h.advance
    have hnext := h.next
    rcases List.mem_cons.mp hl with rfl | hl
    · exact ⟨Nat.le_refl _, h.next_lt (by simp), hnext.2.2⟩
    · obtain ⟨h1, h2, h3⟩ := ih _ hb.1 hl
      exact ⟨Nat.le_trans hnext.2.1 (Nat.le_trans (hb.2 (by simp)) h1), h2, h3⟩

end Account

/-- A row of moves from one account to another, of which those that report a bracket are about brackets that `B` holds of. -/
inductive Told (B : TokenKind → Span → Prop) : Account → Account → Prop
  | refl (a : Account) : Told B a a
  | advance {a b : Account} : Told B a b → Told B a b.advance
  | point {a b : Account} {kind : DiagnosticKind} (detail : Option String) :
      Told B a b → kind.isPointed = true → b.IsOpen → Told B a (b.tellNext ⟨kind, b.next, detail, []⟩)
  | warn {a b : Account} (detail : Option String) :
      Told B a b → b.ahead ≠ [] → b.IsOpen →
        Told B a (b.tellNext ⟨.functionOutsideModuleNamespace, b.next, detail, []⟩).advance
  | unclosed {a b : Account} {kind : DiagnosticKind} {bracket : TokenKind} (note : String) {opening : Span} :
      Told B a b → kind.isAbout bracket = true → B bracket opening → b.ahead = [] → b.IsOpen →
        Told B a (b.tellNext ⟨kind, ⟨opening.start, b.limit⟩, none, [⟨note, opening⟩]⟩)

/-- A report that can be made behind an account, other than one about the order of declarations: it is about a lexeme ahead or the end of
the source, or it reaches to the end from a bracket that `B` holds of. -/
inductive Fits (B : TokenKind → Span → Prop) (a : Account) : Diagnostic → Prop
  | point {kind : DiagnosticKind} {span : Span} {detail : Option String} :
      kind.isStructural = false → kind ≠ .misplacedDeclaration → (span = .empty a.limit ∨ ∃ l ∈ a.ahead, span = l.span) →
        Fits B a ⟨kind, span, detail, []⟩
  | unclosed {kind : DiagnosticKind} {bracket : TokenKind} {note : String} {opening : Span} :
      kind.isAbout bracket = true → B bracket opening → Fits B a ⟨kind, ⟨opening.start, a.limit⟩, none, [⟨note, opening⟩]⟩

/-- A report that is about a bracket is structural. -/
theorem DiagnosticKind.isStructural_of_isAbout {kind : DiagnosticKind} {bracket : TokenKind} (h : kind.isAbout bracket = true) :
    kind.isStructural = true := by
  cases kind <;> first | rfl | cases h

/-- A report of a pointed kind is about neither a bracket nor the order of declarations. -/
theorem DiagnosticKind.of_isPointed {kind : DiagnosticKind} (h : kind.isPointed = true) :
    kind.severity = .error ∧ kind.isStructural = false ∧ kind ≠ .misplacedDeclaration := by
  simpa [DiagnosticKind.isPointed, and_assoc] using h

namespace Told

variable {B : TokenKind → Span → Prop} {a b c : Account}

/-- Rows of moves can be joined. -/
theorem trans (h : Told B a b) (h' : Told B b c) : Told B a c := by
  induction h' with
  | refl => exact h
  | advance _ ih => exact ih.advance
  | point detail _ hk ho ih => exact ih.point detail hk ho
  | warn detail _ hne ho ih => exact ih.warn detail hne ho
  | unclosed note _ hk hb hn ho ih => exact ih.unclosed note hk hb hn ho

/-- The length of the source stays what it is, and what is ahead was ahead before. -/
theorem frame (h : Told B a b) : b.limit = a.limit ∧ b.ahead <:+ a.ahead := by
  induction h with
  | refl => exact ⟨rfl, List.suffix_refl _⟩
  | @advance b _ ih => exact ⟨b.limit_advance.trans ih.1, b.ahead_advance.trans ih.2⟩
  | point _ _ _ _ ih => exact ih
  | warn _ _ _ _ ih => exact ⟨(Account.limit_advance _).trans ih.1, (Account.ahead_advance _).trans ih.2⟩
  | unclosed _ _ _ _ _ _ ih => exact ih

/-- The brackets ahead stay among those that may be reported. -/
theorem opens (h : Told B a b) (ha : a.Opens B) : b.Opens B := fun l hl hk => ha l (h.frame.2.subset hl) hk

/-- Lexemes stay in order, and what comes next does not go back. -/
theorem ordered (h : Told B a b) (ha : a.Ordered) : b.Ordered ∧ a.next.start ≤ b.next.start := by
  have hadvance : ∀ {b : Account}, b.Ordered → a.next.start ≤ b.next.start →
      b.advance.Ordered ∧ a.next.start ≤ b.advance.next.start := by
    intro b hb hle
    refine ⟨hb.advance.1, Nat.le_trans hle ?_⟩
    by_cases hne : b.ahead = []
    · exact Nat.le_of_eq (congrArg (·.next.start) (Account.advance_of_nil hne).symm)
    · exact Nat.le_trans hb.next.2.1 (hb.advance.2 hne)
  induction h with
  | refl => exact ⟨ha, Nat.le_refl _⟩
  | advance _ ih => exact hadvance ih.1 ih.2
  | point _ _ _ _ ih => exact ih
  | warn _ _ _ _ ih => exact hadvance ih.1 ih.2
  | unclosed _ _ _ _ _ _ ih => exact ih

/-- The place that was reached does not go back. -/
theorem reached_le (h : Told B a b) (ha : a.Ordered) : a.reached ≤ b.reached := by
  have hadvance : ∀ {b : Account}, b.Ordered → a.reached ≤ b.reached → a.reached ≤ b.advance.reached := by
    intro b hb hle
    cases hahead : b.ahead with
    | nil =>
      rw [Account.advance_of_nil hahead]
      exact hle
    | cons l ls =>
      have hnext := hb.next
      rw [Account.next_of_cons hahead] at hnext
      rw [Account.advance_of_cons hahead]
      exact Nat.le_trans hle (Nat.le_trans hnext.1 hnext.2.1)
  induction h with
  | refl => exact Nat.le_refl _
  | advance h ih => exact hadvance (h.ordered ha).1 ih
  | point _ _ _ _ ih => exact ih
  | warn _ h _ _ ih => exact hadvance (b := Account.tellNext _ _) (h.ordered ha).1 ih
  | unclosed _ _ _ _ _ _ ih => exact ih

/-- What can be reported behind a later account could be reported before. -/
theorem fits (h : Told B a b) {r : Diagnostic} (hr : Fits B b r) : Fits B a r := by
  obtain ⟨hlimit, hahead⟩ := h.frame
  cases hr with
  | point hs hm hspan =>
    exact .point hs hm (hspan.imp (fun h => h.trans (congrArg Span.empty hlimit)) fun ⟨l, hl, h⟩ => ⟨l, hahead.subset hl, h⟩)
  | unclosed hk hb =>
    rw [hlimit]
    exact .unclosed hk hb

/-- Reports are added behind those made before, and each of them fits. -/
theorem reports (h : Told B a b) : ∃ new, b.reports = a.reports ++ new ∧ ∀ r ∈ new, Fits B a r := by
  have hadd : ∀ {b : Account} {r : Diagnostic}, Fits B a r → (∃ new, b.reports = a.reports ++ new ∧ ∀ r ∈ new, Fits B a r) →
      ∃ new, b.reports ++ [r] = a.reports ++ new ∧ ∀ r ∈ new, Fits B a r := by
    rintro b r hr ⟨new, hb, hn⟩
    refine ⟨new ++ [r], by rw [hb, List.append_assoc], ?_⟩
    exact List.forall_mem_append.mpr ⟨hn, List.forall_mem_singleton.mpr hr⟩
  induction h with
  | refl => exact ⟨[], by simp, by simp⟩
  | @advance b _ ih => exact b.reports_advance.symm ▸ ih
  | point detail h hk _ ih =>
    obtain ⟨-, hs, hm⟩ := DiagnosticKind.of_isPointed hk
    exact hadd (h.fits (.point hs hm (Account.next_cases _))) ih
  | @warn b detail h _ _ ih =>
    rw [Account.reports_advance]
    exact hadd (h.fits (.point rfl (by decide) b.next_cases)) ih
  | unclosed note h hk hb hn _ ih => exact hadd (h.fits (.unclosed hk hb)) ih

/-- The last report is the one it was, or one at a place ahead. -/
theorem lastReport (h : Told B a b) (ha : a.Ordered) :
    b.lastReport = a.lastReport ∨ ∃ place, b.lastReport = some place ∧ a.next.start ≤ place := by
  induction h with
  | refl => exact .inl rfl
  | @advance b _ ih => exact b.lastReport_advance.symm ▸ ih
  | point _ h _ _ _ => exact .inr ⟨_, rfl, (h.ordered ha).2⟩
  | @warn b _ h _ _ _ => exact .inr ⟨b.next.start, Account.lastReport_advance _, (h.ordered ha).2⟩
  | unclosed _ h _ _ _ _ _ => exact .inr ⟨_, rfl, (h.ordered ha).2⟩

end Told

/-- What fits starts where what comes next starts, or behind it, as far as the brackets do that may be reported. -/
theorem Fits.start_le {B : TokenKind → Span → Prop} {a : Account} {r : Diagnostic} (h : Fits B a r) (ha : a.Ordered)
    (hB : ∀ k s, B k s → a.next.start ≤ s.start) : a.next.start ≤ r.span.start := by
  cases h with
  | point _ _ hspan =>
    rcases hspan with rfl | ⟨l, hl, rfl⟩
    · exact Nat.le_trans ha.next.2.1 ha.next.2.2
    · exact (ha.mem hl).1
  | @unclosed _ _ _ opening _ hb =>
    have hle : a.next.start ≤ opening.start := hB _ _ hb
    exact hle

/-- What fits is not about the order of declarations. -/
theorem Fits.not_misplaced {B : TokenKind → Span → Prop} {a : Account} {r : Diagnostic} (h : Fits B a r) :
    r.kind ≠ .misplacedDeclaration := by
  cases h with
  | point _ hm _ => exact hm
  | unclosed hk _ =>
    rintro rfl
    cases hk

/-! ## The account of a reading -/

/-- The account of a reading. -/
def Reading.account (s : Reading) : Account := ⟨s.ahead.map Lexeme.bare, s.limit, s.reached, s.reports, s.lastReport⟩

/-- What comes next in a reading comes next in its account. -/
theorem next_account (c : Cursor) : c.account.next = c.nextSpan := by
  unfold Cursor.nextSpan Account.next Reading.account
  cases c.ahead <;> rfl

theorem ahead_account_eq_nil {s : Reading} : s.account.ahead = [] ↔ s.ahead = [] := List.map_eq_nil_iff

/-- The account of a reading is in order where the reading is. -/
theorem account_ordered {s : Reading} : s.account.Ordered ↔ s.Ordered := by
  have hbare : ∀ {ls : List Lexeme} {place : Nat},
      Grammar.Ordered s.limit place (ls.map Lexeme.bare) ↔ Grammar.Ordered s.limit place ls := by
    intro ls
    induction ls with
    | nil => exact Iff.rfl
    | cons l ls ih => exact and_congr Iff.rfl (and_congr Iff.rfl ih)
  exact hbare

/-- Placing trivia leaves the account as it is. -/
theorem account_placeTrivia (c : Cursor) : c.placeTrivia.account = c.account := by
  unfold Reading.account Cursor.placeTrivia
  cases c.ahead <;> rfl

/-- Taking a lexeme moves the account past it. -/
theorem account_advance (record : Token → Token) (c : Cursor) : (c.advance record).account = c.account.advance := by
  unfold Cursor.advance
  cases h : c.ahead with
  | nil => rw [Account.advance_of_nil (ahead_account_eq_nil.mpr h)]; rfl
  | cons l ls =>
    have hahead : c.account.ahead = l.bare :: ls.map Lexeme.bare := by
      rw [Reading.account, h]
      rfl
    rw [Account.advance_of_cons hahead]
    rfl

/-- A report that counts is added to the account. -/
theorem account_addReport (place : Nat) (report : Diagnostic) (c : Cursor) :
    (c.lastReport = some place ∧ (c.addReport place report).account = c.account) ∨
      (c.lastReport ≠ some place ∧ (c.addReport place report).account = c.account.tell place report) := by
  unfold Cursor.addReport
  split
  · next h => exact .inl ⟨h, rfl⟩
  · next h => exact .inr ⟨h, rfl⟩

end Grammar

end QueryStubs
