import Mathlib.Data.List.DropRight
import QueryStubs.Proofs.Reader.Source
import QueryStubs.Proofs.Syntax.Lexical

/-!
# Where tokens stand

A range is about whole tokens if it starts with one and ends with one (`Token.Row`), as the range of a single token does (`Token.At.row`) and
all from one token to the end (`Token.At.row_to_end`).

While a source is read, its tokens are those that have a place in the tree and those that are left, and the place that was reached is the end
of the last one in the tree that is no trivia (`Reading.Stands`). Every run keeps it so (`Run.stands`), and so everything ahead stands where
its token does (`Reading.Stands.at`).
-/

namespace QueryStubs

namespace Token

variable {tokens : List Token} {t : Token} {span : Span}

/-- The range of a token in a row. -/
def At (tokens : List Token) (t : Token) (span : Span) : Prop :=
  ∃ before after, tokens = before ++ t :: after ∧ span = ⟨sizeOf before, sizeOf before + t.size⟩

/-- The range of some of the tokens in a row, at least of one. -/
def Row (tokens : List Token) (span : Span) : Prop :=
  ∃ before inside after, tokens = before ++ (inside ++ after) ∧ inside ≠ [] ∧ span = ⟨sizeOf before, sizeOf before + sizeOf inside⟩

/-- One token is some of the tokens. -/
theorem At.row (h : At tokens t span) : Row tokens span := by
  obtain ⟨before, after, rfl, rfl⟩ := h
  exact ⟨before, [t], after, rfl, List.cons_ne_nil _ _, by simp⟩

/-- So are all tokens from one of them on. -/
theorem At.row_to_end (h : At tokens t span) : Row tokens ⟨span.start, sizeOf tokens⟩ := by
  obtain ⟨before, after, rfl, rfl⟩ := h
  exact ⟨before, t :: after, [], by simp, List.cons_ne_nil _ _, by simp⟩

/-- A lexeme has the range of its token. -/
theorem place_of_split {offset : Nat} {lead ts : List Token} {l : Lexeme} (h : l ∈ (Lexeme.split offset lead ts).1) :
    ∃ before after, ts = before ++ l.token :: after ∧ l.span = ⟨offset + sizeOf before, offset + sizeOf before + l.token.size⟩ := by
  fun_induction Lexeme.split offset lead ts with
  | case1 => cases h
  | case2 offset lead t ts _ ih =>
    obtain ⟨before, after, rfl, hl⟩ := ih h
    exact ⟨t :: before, after, rfl, by rw [hl, sizeOf_cons, Nat.add_assoc offset]⟩
  | case3 offset lead t ts _ lexemes tail he ih =>
    rw [he] at ih
    rcases List.mem_cons.mp h with rfl | h
    · exact ⟨[], ts, rfl, rfl⟩
    · obtain ⟨before, after, rfl, hl⟩ := ih h
      exact ⟨t :: before, after, rfl, by rw [hl, sizeOf_cons, Nat.add_assoc offset]⟩

end Token

namespace Grammar

/-- A reading that has come to its place in a row of tokens: some of them have a place in the tree, the others are left, and the last one in
the tree that is no trivia ends where the reading is. -/
def Reading.Stands (tokens : List Token) (s : Reading) : Prop :=
  s.limit = Token.sizeOf tokens ∧ ∃ behind, tokens = behind ++ s.left ∧ s.reached = Token.sizeOf (behind.rdropWhile (·.isTrivia)) ∧
    Lexeme.split (Token.sizeOf behind) [] s.left = (s.ahead, s.tail)

variable {tokens : List Token} {c d : Cursor} {l : Lexeme}

/-- What is ahead of such a reading has the range of its token among all. -/
theorem Reading.Stands.at {s : Reading} (h : s.Stands tokens) (hl : l ∈ s.ahead) : Token.At tokens l.token l.span := by
  obtain ⟨-, behind, rfl, -, hcut⟩ := h
  obtain ⟨before, after, hleft, hspan⟩ := Token.place_of_split (l := l) (by rw [hcut]; exact hl)
  refine ⟨behind ++ before, after, ?_, by rw [hspan, Token.sizeOf_append]⟩
  rw [hleft, List.append_assoc]

/-- The reading of a source starts so. -/
theorem start_stands (source : String) : (Cursor.start source).Stands (Token.ofSource source) := by
  refine ⟨?_, [], (start_left source).symm, rfl, by rw [start_left]; rfl⟩
  rw [Token.sizeOf_eq, Token.textOf_ofSource]
  rfl

/-- Trivia at the end of a row do not change where the last token ends that is none. -/
theorem rdropWhile_trivia {w : List Token} (hw : Token.AllTrivia w) (behind : List Token) :
    (behind ++ w).rdropWhile (·.isTrivia) = behind.rdropWhile (·.isTrivia) := by
  induction w using List.reverseRecOn with
  | nil => rw [List.append_nil]
  | append_singleton w t ih =>
    obtain ⟨hw, ht⟩ := List.forall_mem_append.mp hw
    rw [← List.append_assoc, List.rdropWhile_concat_pos _ _ _ (ht t (List.mem_singleton_self t)), ih hw]

/-- What comes next starts behind its trivia, and what is left behind it is cut as before. -/
theorem split_behind {offset : Nat} {lead ts : List Token} {l : Lexeme} {ls : List Lexeme} {tail : List Token}
    (h : Lexeme.split offset lead ts = (l :: ls, tail)) :
    l.span.start + Token.sizeOf lead = offset + Token.sizeOf l.lead ∧ l.span.stop = l.span.start + l.token.size ∧
      l.token.isTrivia = false ∧ Lexeme.split l.span.stop [] (ls.flatMap Lexeme.tokens ++ tail) = (ls, tail) := by
  fun_induction Lexeme.split offset lead ts with
  | case1 => cases h
  | case2 offset lead t ts _ ih =>
    obtain ⟨hstart, hrest⟩ := ih h
    rw [Token.sizeOf_append, Token.sizeOf_cons, Token.sizeOf_nil] at hstart
    exact ⟨by omega, hrest⟩
  | case3 offset lead t ts ht lexemes tail' he =>
    obtain ⟨hl, rfl⟩ := Prod.mk.inj h
    obtain ⟨rfl, rfl⟩ := List.cons.inj hl
    refine ⟨rfl, rfl, Bool.not_eq_true _ ▸ ht, ?_⟩
    have hcut := Lexeme.tokens_split (offset + t.size) [] ts
    rw [he] at hcut
    rw [hcut]
    exact he

/-- Taking a lexeme moves a reading on to the end of it. -/
theorem Reading.Stands.take {s : Reading} (h : s.Stands tokens) {l : Lexeme} {ls : List Lexeme} (ha : s.ahead = l :: ls) (parts : List Tree) :
    Reading.Stands tokens { s with parts := parts, ahead := ls, reached := l.span.stop } := by
  obtain ⟨hlimit, behind, htokens, -, hcut⟩ := h
  rw [ha] at hcut
  obtain ⟨hstart, hstop, htoken, hrest⟩ := split_behind hcut
  have hsize : Token.sizeOf (behind ++ l.tokens) = l.span.stop := by
    rw [Token.sizeOf_append, Lexeme.tokens, Token.sizeOf_append, Token.sizeOf_cons, hstop]
    rw [Token.sizeOf_nil] at hstart ⊢
    omega
  refine ⟨hlimit, behind ++ l.tokens, ?_, ?_, hsize.symm ▸ hrest⟩
  · rw [htokens, Reading.left, ha]
    simp [Reading.left]
  · rw [Lexeme.tokens, ← List.append_assoc, List.rdropWhile_concat_neg _ _ _ (by simp [htoken]), List.append_assoc]
    exact hsize.symm

/-- Placing trivia moves it on to the next lexeme. -/
theorem Reading.Stands.placeTrivia (h : c.Stands tokens) : c.placeTrivia.Stands tokens := by
  obtain ⟨hlimit, behind, htokens, hreached, hcut⟩ := h
  have htrivia : Token.AllTrivia c.nextTrivia := by
    obtain ⟨hleads, htail⟩ := Lexeme.allTrivia_split (Token.sizeOf behind) [] c.left .nil
    rw [hcut] at hleads htail
    unfold Cursor.nextTrivia
    cases ha : c.ahead with
    | nil => exact htail
    | cons l ls => exact (hleads l (ha ▸ List.mem_cons_self ..)).1
  refine ⟨hlimit, behind ++ c.nextTrivia, ?_, ?_, ?_⟩
  · rw [htokens, Run.left_placeTrivia c, List.append_assoc]
  · rw [rdropWhile_trivia htrivia]
    exact hreached
  · unfold Reading.left Cursor.placeTrivia Cursor.nextTrivia
    cases ha : c.ahead with
    | nil => rfl
    | cons l ls =>
      obtain ⟨lead, token, start, stop⟩ := l
      rw [ha] at hcut
      obtain ⟨hstart, hstop, htoken, hrest⟩ := split_behind hcut
      dsimp only at hstart hstop htoken hrest ⊢
      obtain rfl : start = Token.sizeOf (behind ++ lead) := by
        rw [Token.sizeOf_append, ← hstart]
        rfl
      have hleft : (⟨[], token, ⟨Token.sizeOf (behind ++ lead), stop⟩⟩ :: ls).flatMap Lexeme.tokens ++ c.tail =
          token :: (ls.flatMap Lexeme.tokens ++ c.tail) := by simp [Lexeme.tokens]
      rw [hleft, Lexeme.split, if_neg (by simp [htoken]), ← hstop, hrest]

/-- Every run keeps it so. -/
theorem Run.stands (h : Run c d) (hc : c.Stands tokens) : d.Stands tokens := by
  induction h with
  | refl => exact hc
  | look _ _ ih | report _ _ _ ih | bindPrefix _ _ ih | build _ _ ih => exact ih hc
  | take _ ha _ ih => exact (ih hc).take ha _
  | placeTrivia _ ih => exact (ih hc).placeTrivia
  | node _ _ _ ih ih' => exact ih' (ih hc)

end Grammar

end QueryStubs
