import QueryStubs.Module
import QueryStubs.Proofs.Syntax.Form

/-!
# What tokens of a source are like

Three facts about the tokens of every source: nothing but trivia stands in front of a lexeme or behind the last one, and the marks that
can follow an item type are spelled as the occurrences they stand for (`start_lexical`). They hold of what is left whatever a form has
built (`Form.Builds.lexical`).
-/

namespace QueryStubs

/-- A mark that can follow an item type is spelled as an occurrence. -/
def Token.MarkSpelled (t : Token) : Prop := t.kind.isOccurrence = true → ∃ o, Occurrence.ofIndicator? t.text = some o

/-- A token of another kind is no such mark. -/
theorem Token.markSpelled_of_other {kind : TokenKind} (h : kind.isOccurrence = false) (text : String) : MarkSpelled ⟨kind, text⟩ :=
  fun ho => absurd (ho.symm.trans h) (nomatch ·)

/-- The marks by themselves are spelled as occurrences where they are occurrences. -/
theorem Token.markSpelled_of_markKind {c : Char} {kind : TokenKind} (h : markKind c = some kind) :
    MarkSpelled ⟨kind, String.ofList [c]⟩ := by
  unfold markKind at h
  split at h <;> cases h <;> first | exact markSpelled_of_other rfl _ | exact fun _ => ⟨_, rfl⟩

/-- So are all among the pieces of a text. -/
theorem Piece.markSpelled_of_cut {c : Char} {cs text : List Char} {kind : TokenKind} (h : (cut c cs).1 = .plain kind text) :
    Token.MarkSpelled ⟨kind, String.ofList text⟩ := by
  unfold cut at h
  repeat' split at h
  all_goals first | (cases h; exact Token.markSpelled_of_other rfl _) | cases h
  exact Token.markSpelled_of_markKind ‹_›

/-- What holds of the pieces by themselves, of quotation marks, of what is between them and of a piece of nonsense holds of all tokens. -/
theorem Token.forall_scan {P : Token → Prop}
    (hplain : ∀ c cs kind text, (Piece.cut c cs).1 = .plain kind text → P ⟨kind, String.ofList text⟩)
    (hquote : ∀ q : Quote, P ⟨q.kind, q.char.toString⟩) (hbody : ∀ text, P ⟨.literalText, text⟩) (hgarbage : ∀ text, P ⟨.garbage, text⟩)
    (cs : List Char) : ∀ t ∈ scan cs, P t := by
  fun_induction scan cs with
  | case1 => simp
  | case2 c cs ih =>
    have hp := hplain c cs
    generalize (Piece.cut c cs).1 = p at hp
    generalize scan (Piece.cut c cs).2 = ts at ih
    fun_cases Piece.tokensBefore p ts with
    | case1 kind text ts => exact List.forall_mem_cons.mpr ⟨hp kind text rfl, ih⟩
    | case2 quote ts => exact List.forall_mem_cons.mpr ⟨hquote quote, List.forall_mem_cons.mpr ⟨hquote quote, ih⟩⟩
    | case3 quote body ts =>
      refine List.forall_mem_cons.mpr ⟨hquote quote, List.forall_mem_cons.mpr ⟨hbody _, ?_⟩⟩
      exact List.forall_mem_cons.mpr ⟨hquote quote, ih⟩
    | case4 text more ts => exact List.forall_mem_cons.mpr ⟨hgarbage _, (List.forall_mem_cons.mp ih).2⟩
    | case5 text ts => exact List.forall_mem_cons.mpr ⟨hgarbage _, ih⟩

/-- So are all among the tokens of a text. -/
theorem Token.markSpelled_of_scan (cs : List Char) : ∀ t ∈ scan cs, t.MarkSpelled :=
  forall_scan (fun _ _ _ _ => Piece.markSpelled_of_cut) (fun q => markSpelled_of_other (by cases q <;> rfl) _)
    (markSpelled_of_other rfl) (markSpelled_of_other rfl) cs

/-- Tokens that are trivia. -/
def Token.AllTrivia (ts : List Token) : Prop := ∀ t ∈ ts, t.isTrivia = true

theorem Token.AllTrivia.nil : AllTrivia [] := List.forall_mem_nil _

/-- Only trivia stand in front of lexemes and behind the last, and a lexeme is a token that is none. -/
theorem Lexeme.allTrivia_split (offset : Nat) (lead ts : List Token) (h : Token.AllTrivia lead) :
    (∀ l ∈ (split offset lead ts).1, Token.AllTrivia l.lead ∧ l.token ∈ ts ∧ l.token.isTrivia = false) ∧
      Token.AllTrivia (split offset lead ts).2 := by
  fun_induction split offset lead ts with
  | case1 => exact ⟨List.forall_mem_nil _, h⟩
  | case2 offset lead t ts ht ih =>
    have hlead : Token.AllTrivia (lead ++ [t]) := by
      intro u hu
      rcases List.mem_append.mp hu with hu | hu
      · exact h u hu
      · exact List.mem_singleton.mp hu ▸ ht
    obtain ⟨hl, htail⟩ := ih hlead
    exact ⟨fun l hm => ⟨(hl l hm).1, List.mem_cons_of_mem _ (hl l hm).2.1, (hl l hm).2.2⟩, htail⟩
  | case3 offset lead t ts ht lexemes tail he ih =>
    rw [he] at ih
    obtain ⟨hl, htail⟩ := ih .nil
    refine ⟨List.forall_mem_cons.mpr ⟨⟨h, List.mem_cons_self .., Bool.not_eq_true _ ▸ ht⟩, fun l hm => ?_⟩, htail⟩
    exact ⟨(hl l hm).1, List.mem_cons_of_mem _ (hl l hm).2.1, (hl l hm).2.2⟩

namespace Grammar

/-- What the tokens that are left are like. -/
structure Outlook.Lexical (o : Outlook) : Prop where
  leads : ∀ l ∈ o.ahead, Token.AllTrivia l.lead
  tail : Token.AllTrivia o.tail
  tokens : ∀ l ∈ o.ahead, l.token.isTrivia = false ∧ l.token.MarkSpelled

namespace Outlook.Lexical

variable {l : Lexeme} {ls : List Lexeme} {tail : List Token} {reached place : Nat}

/-- Behind the first lexeme the others are as they were. -/
theorem tail_cons (h : Lexical ⟨l :: ls, tail, reached⟩) : Lexical ⟨ls, tail, place⟩ :=
  ⟨fun k hk => h.leads k (List.mem_cons_of_mem _ hk), h.tail, fun k hk => h.tokens k (List.mem_cons_of_mem _ hk)⟩

/-- So they are behind several lexemes. -/
theorem append {run : List Lexeme} (h : Lexical ⟨run ++ ls, tail, reached⟩) : Lexical ⟨ls, tail, place⟩ :=
  ⟨fun k hk => h.leads k (List.mem_append_right _ hk), h.tail, fun k hk => h.tokens k (List.mem_append_right _ hk)⟩

/-- And when trivia are placed. -/
theorem placed {o : Outlook} (h : o.Lexical) : o.placed.Lexical := by
  obtain ⟨_ | ⟨l, ls⟩, tail, reached⟩ := o
  · exact ⟨List.forall_mem_nil _, .nil, List.forall_mem_nil _⟩
  · refine ⟨List.forall_mem_cons.mpr ⟨.nil, (List.forall_mem_cons.mp h.leads).2⟩, h.tail, ?_⟩
    exact List.forall_mem_cons.mpr ⟨h.tokens l (List.mem_cons_self ..), (List.forall_mem_cons.mp h.tokens).2⟩

/-- What comes next in front of a lexeme is trivia. -/
theorem trivia {o : Outlook} (h : o.Lexical) : Token.AllTrivia o.trivia := by
  obtain ⟨_ | ⟨l, ls⟩, tail, reached⟩ := o
  · exact h.tail
  · exact h.leads l (List.mem_cons_self ..)

end Outlook.Lexical

/-- What a form leaves is like what it was given. -/
theorem Form.Builds.lexical {f : Form} {o o' : Outlook} {ts : List Tree} (h : f.Builds o ts o') (ho : o.Lexical) :
    o'.Lexical := by
  induction h with
  | nothing | manyNil => exact ho
  | one | keyword => exact ho.tail_cons
  | @prefixed first colon last ls tail reached =>
    have h : Outlook.Lexical ⟨colon :: last :: ls, tail, reached⟩ := ho.tail_cons
    have h : Outlook.Lexical ⟨last :: ls, tail, reached⟩ := h.tail_cons
    exact h.tail_cons
  | run => exact ho.append
  | seq _ _ ih ih' | manyCons _ _ ih ih' => exact ih' (ih ho)
  | first _ ih | second _ ih | leadNode _ ih | guard _ _ ih => exact ih ho
  | node _ ih => exact ih ho.placed
  | trivia => exact ho.placed

/-- The reading of every source starts so. -/
theorem start_lexical (source : String) : (Cursor.start source).outlook.Lexical := by
  obtain ⟨hl, ht⟩ := Lexeme.allTrivia_split 0 [] (Token.ofSource source) .nil
  exact ⟨fun l hm => (hl l hm).1, ht, fun l hm => ⟨(hl l hm).2.2, Token.markSpelled_of_scan _ _ (hl l hm).2.1⟩⟩

end Grammar

end QueryStubs
