import QueryStubs.Proofs.Written.Quoted

/-!
# Cutting what was written

`Token.Apart ts` says that the scanner cuts the text of some tokens into just these tokens. A token can be put in front of such a row
if its text cannot go on in what follows: a name is not followed by a character of a name, a parenthesis not by a colon, and so on
(`Apart.name`, `Apart.paren`, …), and a literal not by a mark like its own (`Apart.quoted`).
-/

namespace QueryStubs

/-! ## Pieces of one character -/

namespace Piece

variable {cs : List Char}

/-- A parenthesis opens no comment if no colon is behind it. -/
theorem cut_paren (h : cs.head? ≠ some ':') : cut '(' cs = (.plain .parenOpen ['('], cs) := by
  cases cs with
  | nil => rfl
  | cons d ds =>
    have hd : d ≠ ':' := fun he => h (congrArg some he)
    simp [cut, isNameStart, isBlank, hd]

/-- A colon assigns nothing if no equals sign is behind it. -/
theorem cut_colon (h : cs.head? ≠ some '=') : cut ':' cs = (.plain .colon [':'], cs) := by
  cases cs with
  | nil => rfl
  | cons d ds =>
    have hd : d ≠ '=' := fun he => h (congrArg some he)
    simp [cut, isNameStart, isBlank, hd]

end Piece

namespace Token

/-! ## The tokens of written constructs -/

/-- One space. -/
def space : Token := ⟨.blank, " "⟩

/-- A name or a word. -/
def ofName (w : String) : Token := ⟨.name, w⟩

/-- A mark of one character. -/
def ofMark (kind : TokenKind) (c : Char) : Token := ⟨kind, String.ofList [c]⟩

/-- A quotation mark. -/
def ofQuote (q : Quote) : Token := ⟨q.kind, q.char.toString⟩

/-- The text between the marks of a literal, if there is any. -/
def ofBody : List Char → List Token
  | [] => []
  | c :: cs => [⟨.literalText, String.ofList (c :: cs)⟩]

/-- The characters of some tokens. -/
def charsOf (ts : List Token) : List Char := ts.flatMap fun t => t.text.toList

@[simp] theorem charsOf_nil : charsOf [] = [] := rfl

@[simp] theorem charsOf_cons (t : Token) (ts : List Token) : charsOf (t :: ts) = t.text.toList ++ charsOf ts := rfl

@[simp] theorem charsOf_append (ts us : List Token) : charsOf (ts ++ us) = charsOf ts ++ charsOf us := by
  simp [charsOf]

/-- A text is what its tokens up to some place hold and what those behind it hold. -/
theorem chars_of_scan {cs : List Char} {P Q : List Token} (h : scan cs = P ++ Q) : cs = charsOf P ++ charsOf Q := by
  rw [← charsOf_append, ← h]
  exact (toList_scan cs).symm

/-- The text of tokens has their characters. -/
theorem toList_textOf (ts : List Token) : (textOf ts).toList = charsOf ts := by
  rw [textOf, String.toList_join, List.flatMap_map]
  rfl

/-- The token for the inside of a literal, if there is one, makes up that inside. -/
@[simp] theorem chars_ofBody (cs : List Char) : charsOf (ofBody cs) = cs := by
  cases cs <;> simp [ofBody]

/-- What is between the marks of a literal is one token, unless there is nothing to write. -/
theorem ofBody_doubled (q : Quote) (v : String) :
    ofBody (Text.doubled q.char v.toList) = if v = "" then [] else [⟨.literalText, String.ofList (Text.doubled q.char v.toList)⟩] := by
  by_cases hv : v = ""
  · rw [if_pos hv, hv]
    rfl
  · have hfilled : Text.doubled q.char v.toList ≠ [] := mt Text.doubled_eq_nil.mp (mt String.toList_eq_nil_iff.mp hv)
    obtain ⟨c, cs, hcs⟩ := List.exists_cons_of_ne_nil hfilled
    rw [if_neg hv, hcs]
    rfl

/-! ## Tokens that stay apart -/

/-- The tokens are those that their text is cut into. -/
def Apart (ts : List Token) : Prop := scan (charsOf ts) = ts

/-- No character that the tokens start with goes on what is before them. -/
def Stops (p : Char → Bool) (ts : List Token) : Prop := ∀ c, (charsOf ts).head? = some c → p c = false

/-- Nothing goes on in a mark that it does not take. -/
theorem stops_mark {p : Char → Bool} {c : Char} (kind : TokenKind) (ts : List Token) (h : p c = false) : Stops p (ofMark kind c :: ts) := by
  intro d hd
  simp only [charsOf_cons, ofMark, String.toList_ofList, List.cons_append, List.head?_cons, Option.some.injEq] at hd
  exact hd ▸ h

/-- Nothing goes on in a space that it does not take. -/
theorem stops_space {p : Char → Bool} (ts : List Token) (h : p ' ' = false) : Stops p (space :: ts) :=
  stops_mark (c := ' ') .blank ts h

/-- Nothing goes on in a mark of quotation that it does not take. -/
theorem stops_quote {p : Char → Bool} (q : Quote) (ts : List Token) (h : p q.char = false) : Stops p (ofQuote q :: ts) :=
  stops_mark (c := q.char) q.kind ts h

/-- A name does not go on what cannot be followed by the start of a name. -/
theorem stops_name {p : Char → Bool} {w : String} (ts : List Token) (hw : IsNCName w) (h : ∀ c, isNameStart c = true → p c = false) :
    Stops p (ofName w :: ts) := by
  obtain ⟨c, cs, hcs, hc, -⟩ := hw.toList
  intro d hd
  simp only [charsOf_cons, ofName, hcs, List.cons_append, List.head?_cons, Option.some.injEq] at hd
  exact hd ▸ h c hc

/-- No name starts with a character that is not the start of a name. -/
theorem ne_of_isNameStart {d : Char} (hd : isNameStart d = false) (c : Char) (h : isNameStart c = true) : decide (c = d) = false := by
  refine decide_eq_false fun he => ?_
  rw [he, hd] at h
  cases h

/-- No name starts with a blank. -/
theorem isBlank_of_isNameStart (c : Char) (h : isNameStart c = true) : isBlank c = false := by
  have h1 := ne_of_isNameStart (d := ' ') rfl c h
  have h2 := ne_of_isNameStart (d := '\t') rfl c h
  rw [isBlank, h1, h2]
  rfl

/-- Characters are not taken where the first of them is not. -/
theorem takeWhile_stops {p : Char → Bool} {cs : List Char} (h : ∀ c, cs.head? = some c → p c = false) :
    cs.takeWhile p = [] ∧ cs.dropWhile p = cs := by
  cases cs with
  | nil => exact ⟨rfl, rfl⟩
  | cons c cs =>
    have hc := h c rfl
    simp [hc]

/-- A text is cut into its first piece and what the rest is cut into. -/
theorem scan_cons (c : Char) (cs : List Char) : scan (c :: cs) = (Piece.cut c cs).1.tokensBefore (scan (Piece.cut c cs).2) := by
  rw [scan]

/-- A piece that is one token can be put in front of what it is followed by. -/
theorem Apart.plain {kind : TokenKind} {c : Char} {cs : List Char} {ts : List Token} (h : Apart ts)
    (hc : Piece.cut c (cs ++ charsOf ts) = (.plain kind (c :: cs), charsOf ts)) : Apart (⟨kind, String.ofList (c :: cs)⟩ :: ts) := by
  unfold Apart
  rw [charsOf_cons, String.toList_ofList, List.cons_append, scan_cons, hc]
  simp only [Piece.tokensBefore]
  rw [h]

/-- Where nothing is nothing runs together. -/
theorem Apart.nil : Apart [] := by
  unfold Apart
  rw [charsOf_nil, scan]

/-- A name stays apart from what follows unless a name would go on there. -/
theorem Apart.name {w : String} {ts : List Token} (h : Apart ts) (hw : IsNCName w) (hs : Stops isNameChar ts) :
    Apart (ofName w :: ts) := by
  obtain ⟨c, cs, hcs, hc, hall⟩ := hw.toList
  have hw : w = String.ofList (c :: cs) := by rw [← hcs, String.ofList_toList]
  obtain ⟨ht, hd⟩ := takeWhile_stops hs
  have hcut : Piece.cut c (cs ++ charsOf ts) = (.plain .name (c :: cs), charsOf ts) := by
    unfold Piece.cut
    rw [if_pos hc, List.takeWhile_append_of_pos hall, List.dropWhile_append_of_pos hall, ht, hd, List.append_nil]
  rw [hw]
  exact h.plain hcut

/-- A space stays apart from what follows unless that starts with a blank. -/
theorem Apart.space {ts : List Token} (h : Apart ts) (hs : Stops isBlank ts) : Apart (space :: ts) := by
  obtain ⟨ht, hd⟩ := takeWhile_stops hs
  have hcut : Piece.cut ' ' ([] ++ charsOf ts) = (.plain .blank [' '], charsOf ts) := by
    have hstep : Piece.cut ' ' (charsOf ts) = (.plain .blank (' ' :: (charsOf ts).takeWhile isBlank), (charsOf ts).dropWhile isBlank) := rfl
    rw [List.nil_append, hstep, ht, hd]
  exact h.plain hcut

/-- A mark of its own stays apart from what follows. -/
theorem Apart.mark {c : Char} {kind : TokenKind} {ts : List Token} (h : Apart ts) (hc : markKind c = some kind) :
    Apart (ofMark kind c :: ts) := by
  refine h.plain ?_
  rw [List.nil_append]
  unfold markKind at hc
  split at hc <;> cases hc <;> rfl

/-- An opening parenthesis stays apart from what follows unless the two would start a comment. -/
theorem Apart.paren {ts : List Token} (h : Apart ts) (hs : Stops (· = ':') ts) : Apart (ofMark .parenOpen '(' :: ts) :=
  h.plain (Piece.cut_paren fun he => of_decide_eq_false (hs _ he) rfl)

/-- A colon stays apart from what follows unless the two would be one mark. -/
theorem Apart.colon {ts : List Token} (h : Apart ts) (hs : Stops (· = '=') ts) : Apart (ofMark .colon ':' :: ts) :=
  h.plain (Piece.cut_colon fun he => of_decide_eq_false (hs _ he) rfl)

/-- A literal stays apart from what follows unless that starts with its mark. -/
theorem Apart.quoted {q : Quote} {cs : List Char} {ts : List Token} (h : Apart ts) (hs : Stops (· = q.char) ts) :
    Apart (ofQuote q :: (ofBody (Text.doubled q.char cs) ++ ofQuote q :: ts)) := by
  have hbody : Piece.literalBody q.char (Text.doubled q.char cs ++ q.char :: charsOf ts) = some (Text.doubled q.char cs, charsOf ts) :=
    Piece.literalBody_doubled cs fun he => of_decide_eq_false (hs _ he) rfl
  have hcut : Piece.cut q.char (Text.doubled q.char cs ++ q.char :: charsOf ts) = (.literal q (Text.doubled q.char cs), charsOf ts) := by
    rw [Piece.cut_quote, hbody]
  have hchars : charsOf (ofQuote q :: (ofBody (Text.doubled q.char cs) ++ ofQuote q :: ts)) =
      q.char :: (Text.doubled q.char cs ++ q.char :: charsOf ts) := by
    simp [ofQuote, Char.toString]
  unfold Apart
  rw [hchars, scan_cons, hcut]
  simp only
  rw [h]
  cases Text.doubled q.char cs <;> rfl

end Token

end QueryStubs
