import Mathlib.Data.List.Chain
import QueryStubs.Proofs.Scan.Offsets
import QueryStubs.Proofs.Syntax.Lexical
import QueryStubs.Proofs.Written.Tokens

/-!
# The tokens of a source tile it

Each token is a slice of the source, the first starts where the source does, each further one where the token before it ends, and the
last one ends with the source (`Token.tiles_ofSource`). The row of tokens has two more properties that come from the way pieces are cut
and joined: there is no stray text next to stray text, because it would be one token, and quotation marks come in pairs that belong to
one literal (`Token.Literals`), in whose text the mark of the literal stands in runs of even length (`EvenRuns`).
-/

namespace QueryStubs

/-! ## Runs of a character -/

/-- Every run of a character in a text is of even length. -/
def EvenRuns (q : Char) (cs : List Char) : Prop :=
  ∀ before n after, cs = before ++ List.replicate n q ++ after → before.getLast? ≠ some q → after.head? ≠ some q → n % 2 = 0

namespace EvenRuns

variable {q c : Char} {cs : List Char}

theorem nil : EvenRuns q [] := by
  intro before n after h _ _
  have hn : List.replicate n q = [] := (List.append_eq_nil_iff.mp (List.append_eq_nil_iff.mp h.symm).1).2
  rw [List.replicate_eq_nil_iff] at hn
  rw [hn]

/-- Another character in front of a text joins no run. -/
theorem cons (hc : c ≠ q) (h : EvenRuns q cs) : EvenRuns q (c :: cs) := by
  intro before n after he hbefore hafter
  cases before with
  | nil =>
    cases n with
    | zero => rfl
    | succ n => exact absurd (List.cons.inj he).1 hc
  | cons b before =>
    obtain ⟨-, he⟩ := List.cons.inj he
    refine h before n after he (fun hl => hbefore ?_) hafter
    rw [List.getLast?_cons, hl]
    rfl

/-- Two of the characters in front of a text make the run they join, or the one they are, longer by two. -/
theorem pair (h : EvenRuns q cs) : EvenRuns q (q :: q :: cs) := by
  intro before n after he hbefore hafter
  match before, n with
  | [], 0 => rfl
  | [], 1 =>
    obtain ⟨-, he⟩ := List.cons.inj he
    exact absurd (congrArg List.head? he.symm) hafter
  | [], n + 2 =>
    obtain ⟨-, he⟩ := List.cons.inj he
    obtain ⟨-, he⟩ := List.cons.inj he
    have := h [] n after he nofun hafter
    omega
  | [b], n =>
    obtain ⟨rfl, -⟩ := List.cons.inj he
    exact absurd rfl hbefore
  | b :: b' :: before, n =>
    obtain ⟨-, he⟩ := List.cons.inj he
    obtain ⟨rfl, he⟩ := List.cons.inj he
    refine h before n after (by simpa using he) (fun hl => hbefore ?_) hafter
    rw [List.getLast?_cons_cons, List.getLast?_cons, hl]
    rfl

end EvenRuns

/-- The mark that ends a literal is the first that is not doubled, so in front of it the marks are doubled. -/
theorem Piece.evenRuns_of_literalBody {q : Char} {cs body rest : List Char} (h : literalBody q cs = some (body, rest)) :
    EvenRuns q body := by
  fun_induction literalBody q cs generalizing body rest with
  | case1 | case3 => cases h
  | case2 | case5 | case6 => cases h; exact .nil
  | case4 cs b r hb ih => cases h; exact (ih hb).pair
  | case7 c d cs hc ih =>
    obtain ⟨⟨b, r⟩, hb, he⟩ := Option.map_eq_some_iff.mp h
    cases he
    exact (ih hb).cons hc

/-- So they are in every literal that is cut from a text. -/
theorem Piece.evenRuns_of_cut {c : Char} {cs body : List Char} {quote : Quote} (h : (cut c cs).1 = .literal quote body) :
    EvenRuns quote.char body := by
  unfold cut at h
  repeat' split at h
  all_goals cases h
  all_goals exact evenRuns_of_literalBody ‹_›

/-! ## Rows of tokens -/

namespace Token

/-- Tokens among which quotation marks come only as the two marks of a literal, with its text between them if there is any. -/
inductive Literals : List Token → Prop
  | nil : Literals []
  | other {t : Token} {ts : List Token} : t.kind.isQuote = false → t.kind ≠ .literalText → Literals ts → Literals (t :: ts)
  | empty (quote : Quote) {ts : List Token} : Literals ts →
    Literals (⟨quote.kind, quote.char.toString⟩ :: ⟨quote.kind, quote.char.toString⟩ :: ts)
  | full (quote : Quote) {body : String} {ts : List Token} : body ≠ "" → EvenRuns quote.char body.toList → Literals ts →
    Literals (⟨quote.kind, quote.char.toString⟩ :: ⟨.literalText, body⟩ :: ⟨quote.kind, quote.char.toString⟩ :: ts)

/-- A token that belongs to no literal may stand in front. -/
theorem Literals.plain {t : Token} {ts : List Token} (ht : t.kind.isPlain = true) (h : Literals ts) : Literals (t :: ts) := by
  simp only [TokenKind.isPlain, Bool.and_eq_true, Bool.not_eq_true', decide_eq_true_eq] at ht
  exact .other ht.1 ht.2 h

/-- In front of a token that belongs to no literal and behind it the literals are complete. -/
theorem Literals.split {t : Token} {ts us : List Token} (h : Literals (ts ++ t :: us)) (ht : t.kind.isPlain = true) :
    Literals ts ∧ Literals us := by
  have hquote : ∀ (quote : Quote) text, t ≠ ⟨quote.kind, text⟩ := by
    rintro quote text rfl
    cases quote <;> cases ht
  have hbody : ∀ text, t ≠ ⟨.literalText, text⟩ := by
    rintro text rfl
    cases ht
  generalize hrow : ts ++ t :: us = row at h
  induction h generalizing ts with
  | nil => simp at hrow
  | other hq hl hrest ih =>
    rcases ts with _ | ⟨v, ts⟩ <;> simp only [List.nil_append, List.cons_append, List.cons.injEq] at hrow
    · exact ⟨.nil, hrow.2 ▸ hrest⟩
    · obtain ⟨rfl, hrow⟩ := hrow
      exact ⟨.other hq hl (ih hrow).1, (ih hrow).2⟩
  | empty quote hrest ih =>
    rcases ts with _ | ⟨v, _ | ⟨w, ts⟩⟩ <;> simp only [List.nil_append, List.cons_append, List.cons.injEq] at hrow
    · exact absurd hrow.1 (hquote quote _)
    · exact absurd hrow.2.1 (hquote quote _)
    · obtain ⟨rfl, rfl, hrow⟩ := hrow
      exact ⟨.empty quote (ih hrow).1, (ih hrow).2⟩
  | full quote hne heven hrest ih =>
    rcases ts with _ | ⟨v, _ | ⟨w, _ | ⟨x, ts⟩⟩⟩ <;> simp only [List.nil_append, List.cons_append, List.cons.injEq] at hrow
    · exact absurd hrow.1 (hquote quote _)
    · exact absurd hrow.2.1 (hbody _)
    · exact absurd hrow.2.2.1 (hquote quote _)
    · obtain ⟨rfl, rfl, rfl, hrow⟩ := hrow
      exact ⟨.full quote hne heven (ih hrow).1, (ih hrow).2⟩

/-- The literals of a text come complete. -/
theorem literals_scan (cs : List Char) : Literals (scan cs) := by
  fun_induction scan cs with
  | case1 => exact .nil
  | case2 c cs ih =>
    have hplain : ∀ kind text, (Piece.cut c cs).1 = .plain kind text → kind.isPlain = true := fun _ _ => Piece.isPlain_of_cut
    have hliteral : ∀ quote body, (Piece.cut c cs).1 = .literal quote body → EvenRuns quote.char body :=
      fun _ _ => Piece.evenRuns_of_cut
    generalize (Piece.cut c cs).1 = p at hplain hliteral
    generalize scan (Piece.cut c cs).2 = ts at ih
    fun_cases Piece.tokensBefore p ts with
    | case1 kind text ts => exact .plain (hplain kind text rfl) ih
    | case2 quote ts => exact .empty quote ih
    | case3 quote body ts hb =>
      have hbody : String.ofList body ≠ "" := fun he => hb (by simpa using congrArg String.toList he)
      exact .full quote hbody ((String.toList_ofList ▸ hliteral quote body rfl)) ih
    | case4 text more ts =>
      have hmore : Literals ([] ++ ⟨.garbage, more⟩ :: ts) := ih
      exact .plain rfl (hmore.split rfl).2
    | case5 text ts => exact .plain rfl ih

/-- Two tokens that are not both stray text. -/
def Separate (t u : Token) : Prop := ¬(t.kind = .garbage ∧ u.kind = .garbage)

end Token

/-- A mark is neither stray text nor a keyword. -/
theorem kind_ne_of_markKind {c : Char} {kind : TokenKind} (h : markKind c = some kind) : kind ≠ .garbage ∧ kind ≠ .keyword := by
  unfold markKind at h
  split at h <;> cases h <;> decide

/-- Nor are the other pieces of a text that are a token by themselves. -/
theorem Piece.kind_ne_of_cut {c : Char} {cs text : List Char} {kind : TokenKind} (h : (cut c cs).1 = .plain kind text) :
    kind ≠ .garbage ∧ kind ≠ .keyword := by
  unfold cut at h
  repeat' split at h
  all_goals first | cases h; decide | cases h
  exact kind_ne_of_markKind ‹_›

namespace Token

/-- Keywords are names until the grammar takes them. -/
theorem ne_keyword_of_scan (cs : List Char) : ∀ t ∈ scan cs, t.kind ≠ .keyword :=
  forall_scan (fun _ _ _ _ h => (Piece.kind_ne_of_cut h).2) (fun q => by cases q <;> exact nofun) (fun _ => nofun) (fun _ => nofun) cs

/-- A token that is no stray text may stand in front of a row. -/
theorem isChain_cons {t : Token} {ts : List Token} (ht : t.kind ≠ .garbage) (h : ts.IsChain Separate) : (t :: ts).IsChain Separate :=
  h.cons fun _ _ hboth => ht hboth.1

/-- There is no stray text next to stray text. -/
theorem isChain_scan (cs : List Char) : (scan cs).IsChain Separate := by
  have hquote : ∀ quote : Quote, quote.kind ≠ .garbage := fun quote => by cases quote <;> decide
  fun_induction scan cs with
  | case1 => exact .nil
  | case2 c cs ih =>
    have hplain : ∀ kind text, (Piece.cut c cs).1 = .plain kind text → kind ≠ .garbage := fun _ _ h => (Piece.kind_ne_of_cut h).1
    generalize (Piece.cut c cs).1 = p at hplain
    generalize scan (Piece.cut c cs).2 = ts at ih
    fun_cases Piece.tokensBefore p ts with
    | case1 kind text ts => exact isChain_cons (hplain kind text rfl) ih
    | case2 quote ts => exact isChain_cons (hquote quote) (isChain_cons (hquote quote) ih)
    | case3 quote body ts => exact isChain_cons (hquote quote) (isChain_cons (by simp) (isChain_cons (hquote quote) ih))
    | case4 text more ts =>
      -- The tokens of the rest start with stray text, which takes the new one in.
      obtain ⟨hnext, hrest⟩ := List.isChain_cons.mp ih
      exact hrest.cons hnext
    | case5 text ts hno =>
      refine ih.cons fun u hu hboth => ?_
      have hts : ts = ⟨.garbage, u.text⟩ :: ts.tail := hboth.2 ▸ List.eq_cons_of_mem_head? hu
      exact hno u.text ts.tail hts

end Token

/-- A kind of token that is no keyword is listed under a name of its own. -/
theorem TokenKind.label_ne {kind : TokenKind} (h : kind ≠ .keyword) :
    kind.label ∉ ["StringLiteral", "Keyword", "Error"] ∧ ∀ construct : NodeKind, kind.label ≠ construct.label := by
  refine ⟨?_, fun construct => ?_⟩
  · cases kind <;> first | exact absurd rfl h | decide
  · cases kind <;> cases construct <;> decide

/-- The tokens of a source tile it: none is empty, each is what the source has between the end of the token before it and its own end,
the last one ends with the source. Offsets of 32 bits are enough for their ranges as long as they can tell the places of the source apart.
No two of them in a row are stray text, none is of a kind that only the grammar makes, and quotation marks come only as complete
literals. -/
theorem Token.tiles_ofSource {source : String} (h : Addressable source) :
    wrapped? source = some (placed 0 (ofSource source)) ∧ (∀ before t after, ofSource source = before ++ t :: after →
        0 < t.size ∧ Span.Cuts source ⟨sizeOf before, sizeOf before + t.size⟩ t.text) ∧
      sizeOf (ofSource source) = source.utf8ByteSize ∧ (ofSource source).IsChain Separate ∧
        (∀ t ∈ ofSource source,
          t.kind.label ∉ ["StringLiteral", "Keyword", "Error"] ∧ ∀ construct : NodeKind, t.kind.label ≠ construct.label) ∧
          Literals (ofSource source) := by
  refine ⟨wrapped?_eq h, fun before t after h => ⟨?_, ?_⟩, ?_, isChain_scan _, fun t ht => ?_, literals_scan _⟩
  · exact size_pos_of_scan _ t (h ▸ List.mem_append_right _ (List.mem_cons_self ..))
  · have hcuts := cuts_token before t after
    rwa [← h, textOf_ofSource] at hcuts
  · rw [sizeOf_eq, textOf_ofSource]
  · exact TokenKind.label_ne (ne_keyword_of_scan _ t ht)

/-- Stray text of two characters, one of them of two bytes, behind a literal with a doubled mark. -/
theorem Token.tiles_ofSource_stray :
    Addressable "'a''b'#ö" ∧ wrapped? "'a''b'#ö" = some [(⟨.singleQuote, "'"⟩, ⟨0, 1⟩), (⟨.literalText, "a''b"⟩, ⟨1, 5⟩),
      (⟨.singleQuote, "'"⟩, ⟨5, 6⟩), (⟨.garbage, "#ö"⟩, ⟨6, 9⟩)] := by
  have h : Addressable "'a''b'#ö" := by decide
  have htokens : placed 0 (ofSource "'a''b'#ö") = [(⟨.singleQuote, "'"⟩, ⟨0, 1⟩), (⟨.literalText, "a''b"⟩, ⟨1, 5⟩),
      (⟨.singleQuote, "'"⟩, ⟨5, 6⟩), (⟨.garbage, "#ö"⟩, ⟨6, 9⟩)] := by decide +kernel
  exact ⟨h, htokens ▸ (tiles_ofSource h).1⟩

end QueryStubs
