import QueryStubs.Proofs.Scan.Tiling

/-!
# Places where the scanner starts anew

What is behind a place between two tokens is cut as if nothing were in front of it, unless the place is inside a literal
(`Token.scan_boundary`). The tokens do not tell all such places, since stray text is joined: they are the places between the pieces of a text
(`Piece.row`), in which a literal is one piece, and those between tokens are among them (`Token.cutBetween_of_literals`).
-/

namespace QueryStubs

namespace Piece

/-! ## The pieces of a text -/

/-- The pieces of a text, in order. -/
def row : List Char → List Piece
  | [] => []
  | c :: cs => (cut c cs).1 :: row (cut c cs).2
termination_by cs => cs.length
decreasing_by exact length_cut_snd_lt c cs

theorem row_cons (c : Char) (cs : List Char) : row (c :: cs) = (cut c cs).1 :: row (cut c cs).2 := by rw [row]

/-- The tokens of a text are those of its pieces, where stray text is joined. -/
theorem scan_eq_foldr (cs : List Char) : Token.scan cs = (row cs).foldr tokensBefore [] := by
  fun_induction row cs with
  | case1 => rw [Token.scan, List.foldr_nil]
  | case2 c cs ih => rw [Token.scan_cons, ih, List.foldr_cons]

/-- The tokens of pieces have their characters. -/
theorem charsOf_foldr (ps : List Piece) : Token.charsOf (ps.foldr tokensBefore []) = ps.flatMap chars := by
  induction ps with
  | nil => rfl
  | cons p ps ih => rw [List.foldr_cons, List.flatMap_cons, ← ih, Token.charsOf, toList_tokensBefore, Token.charsOf]

/-- So the pieces of a text have the characters of the text. -/
theorem chars_row (cs : List Char) : (row cs).flatMap chars = cs := by
  rw [← charsOf_foldr, ← scan_eq_foldr]
  exact Token.toList_scan cs

/-- What is behind a piece is cut as if nothing were in front of it. -/
theorem row_behind {cs : List Char} {before after : List Piece} (h : row cs = before ++ after) : row (after.flatMap chars) = after := by
  fun_induction row cs generalizing before with
  | case1 =>
    obtain ⟨-, rfl⟩ := List.append_eq_nil_iff.mp h.symm
    rw [List.flatMap_nil, row]
  | case2 c cs ih =>
    cases before with
    | nil =>
      rw [List.nil_append] at h
      rw [← h, ← row_cons, chars_row]
    | cons p before => exact ih (List.cons.inj h).2

/-- Garbage at the end stays at the end, whatever pieces come in front, and stray text may join it. -/
theorem foldr_garbage (ps : List Piece) (text : String) :
    ∃ ts g, ps.foldr tokensBefore [⟨.garbage, text⟩] = ts ++ [⟨.garbage, g⟩] ∧ text.toList <:+ g.toList := by
  induction ps with
  | nil => exact ⟨[], text, rfl, List.suffix_refl _⟩
  | cons p ps ih =>
    obtain ⟨ts, g, hlast, hg⟩ := ih
    rw [List.foldr_cons, hlast]
    cases p with
    | plain kind cs => exact ⟨⟨kind, String.ofList cs⟩ :: ts, g, rfl, hg⟩
    | literal quote body =>
      cases body with
      | nil => exact ⟨⟨quote.kind, quote.char.toString⟩ :: ⟨quote.kind, quote.char.toString⟩ :: ts, g, rfl, hg⟩
      | cons c cs =>
        exact ⟨⟨quote.kind, quote.char.toString⟩ :: ⟨.literalText, String.ofList (c :: cs)⟩ :: ⟨quote.kind, quote.char.toString⟩ :: ts, g,
          rfl, hg⟩
    | stray cs =>
      cases ts with
      | nil =>
        refine ⟨[], String.ofList cs ++ g, rfl, ?_⟩
        rw [String.toList_append]
        exact List.suffix_append_of_suffix hg
      | cons t ts =>
        by_cases ht : ∃ more, t = ⟨.garbage, more⟩
        · obtain ⟨more, rfl⟩ := ht
          exact ⟨⟨.garbage, String.ofList cs ++ more⟩ :: ts, g, rfl, hg⟩
        · refine ⟨⟨.garbage, String.ofList cs⟩ :: t :: ts, g, ?_, hg⟩
          exact tokensBefore.eq_5 _ cs fun more us he => ht ⟨more, (List.cons.inj he).1⟩

end Piece

namespace Token

/-- The scanner starts anew between two texts. In a literal it never does, since the literal is one piece. -/
def CutBetween (front rest : List Char) : Prop :=
  ∃ before after, Piece.row (front ++ rest) = before ++ after ∧ before.flatMap Piece.chars = front

/-- There the pieces of the second text begin. -/
theorem CutBetween.exists_row {front rest : List Char} (h : CutBetween front rest) :
    ∃ before, Piece.row (front ++ rest) = before ++ Piece.row rest := by
  obtain ⟨before, after, hrow, rfl⟩ := h
  have hchars := Piece.chars_row (before.flatMap Piece.chars ++ rest)
  rw [hrow, List.flatMap_append] at hchars
  exact ⟨before, by rw [hrow, ← List.append_cancel_left hchars, Piece.row_behind hrow]⟩

/-! ## Places between tokens -/

variable {q : Quote} {t : Token} {ts P Q : List Token} {cs : List Char}

/-- Where a quotation mark comes first, the literal it starts is complete. -/
theorem Literals.of_mark {text : String} (h : Literals (⟨q.kind, text⟩ :: ts)) :
    (∃ us, ts = ⟨q.kind, q.char.toString⟩ :: us ∧ Literals us) ∨
      ∃ body us, ts = ⟨.literalText, body⟩ :: ⟨q.kind, q.char.toString⟩ :: us ∧ Literals us := by
  have hkind : ∀ q' : Quote, q'.kind = q.kind → q' = q := by
    intro q'
    cases q <;> cases q' <;> simp [Quote.kind]
  generalize hrow : (⟨q.kind, text⟩ : Token) :: ts = row at h
  cases h with
  | nil => cases hrow
  | other hquote _ _ =>
    rw [← (List.cons.inj hrow).1] at hquote
    cases q <;> cases hquote
  | empty quote h =>
    obtain ⟨hfirst, rfl⟩ := List.cons.inj hrow
    obtain rfl := hkind quote (congrArg Token.kind hfirst).symm
    exact .inl ⟨_, rfl, h⟩
  | full quote _ _ h =>
    obtain ⟨hfirst, rfl⟩ := List.cons.inj hrow
    obtain rfl := hkind quote (congrArg Token.kind hfirst).symm
    exact .inr ⟨_, _, rfl, h⟩

/-- In front of a place outside literals stands nothing, or the first piece of the text and what is behind that. -/
theorem boundary_of_tokensBefore {p : Piece} (hp : ∀ kind text, p = .plain kind text → kind.isPlain = true)
    (h : p.tokensBefore ts = P ++ Q) (hP : Literals P) : P = [] ∨ ∃ P', ts = P' ++ Q ∧ Literals P' := by
  rcases P with _ | ⟨t, P⟩
  · exact .inl rfl
  have hbehind : ∀ {t : Token} {us : List Token}, Literals ([] ++ t :: us) → t.kind.isPlain = true → Literals us := fun h ht => (h.split ht).2
  refine .inr ?_
  revert h
  fun_cases Piece.tokensBefore p ts with
  | case1 kind text ts =>
    intro h
    obtain ⟨rfl, hts⟩ := List.cons.inj h
    exact ⟨P, hts, hbehind hP (hp kind text rfl)⟩
  | case2 q ts =>
    intro h
    obtain ⟨rfl, hts⟩ := List.cons.inj h
    rcases hP.of_mark with ⟨us, rfl, hus⟩ | ⟨body, us, rfl, -⟩
    · exact ⟨us, (List.cons.inj hts).2, hus⟩
    · cases q <;> cases (List.cons.inj hts).1
  | case3 q body ts _ =>
    intro h
    obtain ⟨rfl, hts⟩ := List.cons.inj h
    rcases hP.of_mark with ⟨us, rfl, -⟩ | ⟨body, us, rfl, hus⟩
    · cases q <;> cases (List.cons.inj hts).1
    · exact ⟨us, (List.cons.inj (List.cons.inj hts).2).2, hus⟩
  | case4 text more ts =>
    intro h
    obtain ⟨rfl, hts⟩ := List.cons.inj h
    exact ⟨⟨.garbage, more⟩ :: P, congrArg _ hts, .plain rfl (hbehind hP rfl)⟩
  | case5 text ts _ =>
    intro h
    obtain ⟨rfl, hts⟩ := List.cons.inj h
    exact ⟨P, hts, hbehind hP rfl⟩

/-- What is behind a place between two tokens that is not inside a literal is cut as if nothing were in front of it. -/
theorem scan_boundary (h : scan cs = P ++ Q) (hP : Literals P) : scan (charsOf Q) = Q := by
  fun_induction scan cs generalizing P with
  | case1 =>
    rw [(List.append_eq_nil_iff.mp h.symm).2]
    exact Apart.nil
  | case2 c cs ih =>
    rcases boundary_of_tokensBefore (fun _ _ => Piece.isPlain_of_cut) h hP with rfl | ⟨P', hts, hP'⟩
    · rw [List.nil_append, ← scan_cons] at h
      rw [← h]
      exact congrArg scan (toList_scan _)
    · exact ih hts hP'

/-- The pieces of a text fall apart at such a place. -/
theorem exists_row_of_literals (h : scan cs = P ++ Q) (hP : Literals P) :
    ∃ before after, Piece.row cs = before ++ after ∧ after.foldr Piece.tokensBefore [] = Q := by
  fun_induction scan cs generalizing P with
  | case1 => exact ⟨[], [], by rw [Piece.row, List.append_nil], (List.append_eq_nil_iff.mp h.symm).2.symm⟩
  | case2 c cs ih =>
    rcases boundary_of_tokensBefore (fun _ _ => Piece.isPlain_of_cut) h hP with rfl | ⟨P', hts, hP'⟩
    · refine ⟨[], Piece.row (c :: cs), rfl, ?_⟩
      rw [← Piece.scan_eq_foldr, scan_cons]
      exact h
    · obtain ⟨before, after, hrow, hQ⟩ := ih hts hP'
      exact ⟨(Piece.cut c cs).1 :: before, after, by rw [Piece.row_cons, hrow, List.cons_append], hQ⟩

/-- So the scanner starts anew there. -/
theorem cutBetween_of_literals (h : scan cs = P ++ Q) (hP : Literals P) : CutBetween (charsOf P) (charsOf Q) := by
  obtain ⟨before, after, hrow, rfl⟩ := exists_row_of_literals h hP
  have hcs : charsOf P ++ charsOf (after.foldr Piece.tokensBefore []) = cs := (chars_of_scan h).symm
  refine ⟨before, after, hcs ▸ hrow, ?_⟩
  have hchars := Piece.chars_row cs
  rw [hrow, List.flatMap_append, ← Piece.charsOf_foldr after, ← hcs] at hchars
  exact List.append_cancel_right hchars

end Token

end QueryStubs
