import QueryStubs.Grammar.Cursor
import QueryStubs.Proofs.Reader.Aligned
import QueryStubs.Proofs.Reader.Run

/-!
# Where a reader starts

The tokens of a source are not empty and cover it (`textOf_ofSource`), string literals come complete (`aligned_split`), and the
lexemes made of them stand in order (`ordered_split`). So the reading of every source starts aligned and ordered.
-/

namespace QueryStubs

/-- A mark belongs to no literal. -/
theorem isPlain_of_markKind {c : Char} {kind : TokenKind} (h : markKind c = some kind) : kind.isPlain = true := by
  unfold markKind at h
  split at h <;> cases h <;> rfl

/-- The pieces of a text that are a single token belong to no literal. -/
theorem Piece.isPlain_of_cut {c : Char} {cs text : List Char} {kind : TokenKind} (h : (cut c cs).1 = .plain kind text) :
    kind.isPlain = true := by
  unfold cut at h
  repeat' split at h
  all_goals first | cases h; rfl | cases h
  exact isPlain_of_markKind ‹_›

namespace Token

/-- The length of tokens is that of their text. -/
theorem sizeOf_eq (ts : List Token) : sizeOf ts = (textOf ts).utf8ByteSize := by
  induction ts with
  | nil => rfl
  | cons t ts ih => rw [sizeOf_cons, ih, textOf, textOf, List.map_cons, String.join_cons, String.utf8ByteSize_append, size]

/-- The tokens of a source have its text. -/
theorem textOf_ofSource (source : String) : textOf (ofSource source) = source := by
  refine String.toList_inj.mp ?_
  rw [textOf, String.toList_join, List.flatMap_map]
  exact toList_scan source.toList

/-- A token with a character is not empty. -/
theorem size_pos {t : Token} (h : t.text.toList ≠ []) : 0 < t.size := by
  refine Nat.pos_of_ne_zero fun hz => h ?_
  rw [String.utf8ByteSize_eq_zero_iff.mp hz]
  rfl

/-- No token of a text is empty. -/
theorem size_pos_of_scan (cs : List Char) : ∀ t ∈ scan cs, 0 < t.size := by
  fun_induction scan cs with
  | case1 => simp
  | case2 c cs ih =>
    have hc := Piece.cut_chars_ne_nil c cs
    generalize (Piece.cut c cs).1 = p at hc
    generalize scan (Piece.cut c cs).2 = ts at ih
    have hquote : ∀ (q : Quote) kind, 0 < Token.size ⟨kind, q.char.toString⟩ := fun q kind => size_pos (by simp [Char.toString])
    fun_cases Piece.tokensBefore p ts with
    | case1 kind text ts =>
      refine List.forall_mem_cons.mpr ⟨size_pos ?_, ih⟩
      simpa [Piece.chars] using hc
    | case2 quote ts => exact List.forall_mem_cons.mpr ⟨hquote .., List.forall_mem_cons.mpr ⟨hquote .., ih⟩⟩
    | case3 quote body ts hb =>
      refine List.forall_mem_cons.mpr ⟨hquote .., List.forall_mem_cons.mpr ⟨size_pos ?_, ?_⟩⟩
      · simpa using hb
      · exact List.forall_mem_cons.mpr ⟨hquote .., ih⟩
    | case4 text more ts =>
      obtain ⟨-, ih⟩ := List.forall_mem_cons.mp ih
      refine List.forall_mem_cons.mpr ⟨size_pos ?_, ih⟩
      have hc : text ≠ [] := hc
      simp [hc]
    | case5 text ts =>
      refine List.forall_mem_cons.mpr ⟨size_pos ?_, ih⟩
      simpa [Piece.chars] using hc

end Token

/-- The tokens of lexemes are those that are no trivia. -/
theorem Lexeme.tokens_of_split (offset : Nat) (lead ts : List Token) :
    (split offset lead ts).1.map (·.token) = ts.filter (!·.isTrivia) := by
  fun_induction split offset lead ts with
  | case1 => rfl
  | case2 offset lead t ts ht ih => simpa [ht] using ih
  | case3 offset lead t ts ht lexemes tail he ih =>
    rw [he] at ih
    simpa [ht] using ih

namespace Grammar

/-- Tokens of which none is empty make lexemes that stand in order. -/
theorem ordered_split (ts lead : List Token) (offset place : Nat) (hp : place ≤ offset) (h : ∀ t ∈ ts, 0 < t.size) :
    Ordered (offset + Token.sizeOf ts) place (Lexeme.split offset lead ts).1 := by
  fun_induction Lexeme.split offset lead ts generalizing place with
  | case1 => simpa [Ordered] using hp
  | case2 offset lead t ts ht ih =>
    rw [Token.sizeOf_cons, ← Nat.add_assoc]
    exact ih place (by omega) fun u hu => h u (List.mem_cons_of_mem _ hu)
  | case3 offset lead t ts ht lexemes tail he ih =>
    have hpos := h t (List.mem_cons_self ..)
    rw [he] at ih
    rw [Token.sizeOf_cons, ← Nat.add_assoc]
    exact ⟨hp, by simp only; omega, ih _ (Nat.le_refl _) fun u hu => h u (List.mem_cons_of_mem _ hu)⟩

/-- The lexemes of a text are aligned: string literals come complete. -/
theorem aligned_split (cs : List Char) (offset : Nat) (lead : List Token) :
    Aligned (Lexeme.split offset lead (Token.scan cs)).1 := by
  have hquote : ∀ q : Quote, q.kind.isQuote = true ∧ q.kind.isTrivia = false := fun q => by cases q <;> decide
  fun_induction Token.scan cs generalizing offset lead with
  | case1 => exact .nil
  | case2 c cs ih =>
    have hp : ∀ kind text, (Piece.cut c cs).1 = .plain kind text → kind.isPlain = true := fun _ _ => Piece.isPlain_of_cut
    generalize (Piece.cut c cs).1 = p at hp
    generalize Token.scan (Piece.cut c cs).2 = ts at ih
    fun_cases Piece.tokensBefore p ts with
    | case1 kind text ts =>
      by_cases ht : kind.isTrivia = true
      · simpa [Lexeme.split, Token.isTrivia, ht] using ih _ _
      · simpa [Lexeme.split, Token.isTrivia, ht] using .plain (hp kind text rfl) (ih _ _)
    | case2 quote ts =>
      obtain ⟨hq, ht⟩ := hquote quote
      simpa [Lexeme.split, Token.isTrivia, ht] using .emptyLiteral hq rfl rfl (ih _ _)
    | case3 quote body ts hb =>
      obtain ⟨hq, ht⟩ := hquote quote
      have hbody : TokenKind.literalText.isTrivia = false := rfl
      simpa [Lexeme.split, Token.isTrivia, ht, hbody] using .literal hq rfl rfl rfl rfl (ih _ _)
    | case4 text more ts =>
      have hg : TokenKind.garbage.isTrivia = false := rfl
      have hrest := ih (offset + (String.ofList text).utf8ByteSize) []
      simp only [Lexeme.split, Token.isTrivia, hg, Bool.false_eq_true, if_false] at hrest ⊢
      have hrest := hrest.tail rfl
      rw [Token.size, Nat.add_assoc, ← String.utf8ByteSize_append] at hrest
      exact .plain rfl hrest
    | case5 text ts =>
      simpa [Lexeme.split, Token.isTrivia] using .plain rfl (ih _ _)

/-- The reading of a source starts in order. -/
theorem start_ordered (source : String) : (Cursor.start source).Ordered := by
  have h := ordered_split (Token.ofSource source) [] 0 0 (Nat.le_refl 0) (Token.size_pos_of_scan _)
  rw [Nat.zero_add, Token.sizeOf_eq, Token.textOf_ofSource] at h
  exact h

/-- It starts aligned. -/
theorem start_aligned (source : String) : Aligned (Cursor.start source).ahead := aligned_split source.toList 0 []

/-- All tokens of the source are left then. -/
theorem start_left (source : String) : (Cursor.start source).left = Token.ofSource source :=
  Lexeme.tokens_split 0 [] (Token.ofSource source)

end Grammar

end QueryStubs
