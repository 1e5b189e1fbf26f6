import QueryStubs.Proofs.Reports.Rounds

/-!
# The ranges of reports

Every range in a report is about whole tokens, or it is the empty one at the end of the source (`Diagnostic.Placed`): a report is about a
single token or about the end, or it reaches to the end from an opening bracket, or it is about a misplaced setter, whose range and the one of
the declaration that it had to come before are about the tokens of those without the trivia behind them. What fits an account whose lexemes
stand at their tokens is so placed (`Fits.placed`), and such ranges begin and end where characters do (`Token.Row.cuts`).
-/

namespace QueryStubs

open Grammar

/-- The range of an opening bracket of a kind among tokens. -/
def Token.Bracket (tokens : List Token) (kind : TokenKind) (span : Span) : Prop := ∃ t, t.kind = kind ∧ At tokens t span

/-- A report whose ranges are about whole tokens, or which is about the end. -/
inductive Diagnostic.Placed (tokens : List Token) : Diagnostic → Prop
  | point {kind : DiagnosticKind} {span : Span} {detail : Option String} : kind.isStructural = false →
      (span = .empty (Token.sizeOf tokens) ∨ ∃ t, Token.At tokens t span) → Placed tokens ⟨kind, span, detail, []⟩
  | unclosed {kind : DiagnosticKind} {bracket : TokenKind} {note : String} {opening : Span} : kind.isAbout bracket = true →
      Token.Bracket tokens bracket opening → Placed tokens ⟨kind, ⟨opening.start, Token.sizeOf tokens⟩, none, [⟨note, opening⟩]⟩
  | misplaced {span first : Span} : Token.Row tokens span → Token.Row tokens first → Placed tokens (.misplaced span first)

namespace Token

variable {tokens : List Token} {t : Token} {span : Span}

/-- Tokens that are not empty take a range that is not empty either, within the range of them all. -/
theorem Row.bounds (h : Row tokens span) (hpos : ∀ t ∈ tokens, 0 < t.size) : span.start < span.stop ∧ span.stop ≤ sizeOf tokens := by
  obtain ⟨before, inside, after, rfl, hne, rfl⟩ := h
  obtain ⟨t, ts, rfl⟩ := List.exists_cons_of_ne_nil hne
  have ht := hpos t (by simp)
  simp only [sizeOf_append, sizeOf_cons]
  omega

/-- Where such a range begins and ends, characters do. -/
theorem Row.cuts (h : Row tokens span) : ∃ text, span.Cuts (textOf tokens) text := by
  obtain ⟨before, inside, after, rfl, -, rfl⟩ := h
  rw [← List.append_assoc]
  exact ⟨_, cuts_textOf before inside after⟩

end Token

namespace Grammar

variable {tokens : List Token} {B : TokenKind → Span → Prop} {a : Account} {s : Reading} {r : Diagnostic}

/-- What fits an account that stands in a row of tokens is placed among them. -/
theorem Fits.placed (h : Fits B a r) (hlimit : a.limit = Token.sizeOf tokens) (hahead : ∀ l ∈ a.ahead, Token.At tokens l.token l.span)
    (hB : ∀ k s, B k s → Token.Bracket tokens k s) : r.Placed tokens := by
  cases h with
  | point hs _ hspan =>
    refine .point hs (hspan.imp (fun h => hlimit ▸ h) ?_)
    rintro ⟨l, hl, rfl⟩
    exact ⟨l.token, hahead l hl⟩
  | unclosed hk hb =>
    rw [hlimit]
    exact .unclosed hk (hB _ _ hb)

/-- What is ahead of a reading that stands in a row of tokens has the ranges of its tokens, also in its account. -/
theorem Reading.Stands.account_at (h : s.Stands tokens) : ∀ l ∈ s.account.ahead, Token.At tokens l.token l.span := by
  intro l hl
  obtain ⟨k, hk, rfl⟩ := List.mem_map.mp hl
  have hat := h.at hk
  exact hat

/-- The brackets ahead are brackets among the tokens, and they start where what comes next does, or behind it. -/
theorem Reading.Stands.opens (h : s.Stands tokens) (ho : s.account.Ordered) :
    s.account.Opens fun k span => Token.Bracket tokens k span ∧ s.account.next.start ≤ span.start :=
  fun l hl _ => ⟨⟨l.token, rfl, h.account_at l hl⟩, (ho.mem hl).1⟩

/-- The brackets among tokens that are not empty start in front of the end. -/
theorem Reading.Stands.bracket_lt (hs : s.Stands tokens) (hpos : ∀ t ∈ tokens, 0 < t.size) {k : TokenKind} {span : Span}
    (h : Token.Bracket tokens k span) : span.start < s.account.limit := by
  obtain ⟨t, -, ht⟩ := h
  obtain ⟨hlt, hle⟩ := ht.row.bounds hpos
  exact Nat.lt_of_lt_of_le hlt (hle.trans_eq hs.1.symm)

end Grammar

end QueryStubs
