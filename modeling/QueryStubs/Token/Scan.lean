import QueryStubs.Token

/-!
# Cutting a text into tokens

`Token.scan` cuts a text from left to right, each time taking the longest piece that is a token: a name, a number, a run of
blanks, a line end, a mark, a whole comment or a whole string literal. Characters that start no token are kept as well, and a run
of them with nothing between is one token of kind `garbage`.

Two pieces reach further than one might think. A comment ends at the mark that closes the outermost open one, and a comment that
is never closed makes the rest of the text garbage. In a string literal a doubled quotation mark stands for one; when after a
doubled mark no closing mark follows any more, the literal ends at the first of the two, and a literal with no closing mark at
all makes the rest of the text garbage.

Main statement: `Token.toList_scan`, nothing is lost, added or moved.
-/

namespace QueryStubs

/-- The characters a name can start with. -/
def isNameStart (c : Char) : Bool := c.isAlpha || c = '_'

/-- The characters a name can go on with. -/
def isNameChar (c : Char) : Bool := c.isAlphanum || c = '_' || c = '.' || c = '-'

/-- The characters of a run of blanks. A line end is not among them. -/
def isBlank (c : Char) : Bool := c = ' ' || c = '\t'

/-- The marks that are a token by themselves whatever follows them. -/
def markKind : Char → Option TokenKind
  | ')' => some .parenClose
  | '{' => some .braceOpen
  | '}' => some .braceClose
  | '[' => some .bracketOpen
  | ']' => some .bracketClose
  | ',' => some .comma
  | ';' => some .semicolon
  | '=' => some .equals
  | '$' => some .dollar
  | '?' => some .question
  | '*' => some .star
  | '+' => some .plus
  | _ => none

/-- What stands at the start of a text. -/
inductive Piece where
  | plain (kind : TokenKind) (text : List Char)
  /-- A string literal, without its two quotation marks. -/
  | literal (quote : Quote) (body : List Char)
  /-- Characters that start no token. -/
  | stray (text : List Char)
  deriving DecidableEq, Repr

namespace Piece

/-- The characters a piece was cut from. -/
def chars : Piece → List Char
  | plain _ text => text
  | literal quote body => quote.char :: (body ++ [quote.char])
  | stray text => text

/-- The tokens of a text that starts with a piece, given those of the rest. Stray characters join a run of such characters that
follows them. -/
def tokensBefore : Piece → List Token → List Token
  | plain kind text, ts => ⟨kind, String.ofList text⟩ :: ts
  | literal quote [], ts => ⟨quote.kind, quote.char.toString⟩ :: ⟨quote.kind, quote.char.toString⟩ :: ts
  | literal quote body, ts =>
    ⟨quote.kind, quote.char.toString⟩ :: ⟨.literalText, String.ofList body⟩ :: ⟨quote.kind, quote.char.toString⟩ :: ts
  | stray text, ⟨.garbage, more⟩ :: ts => ⟨.garbage, String.ofList text ++ more⟩ :: ts
  | stray text, ts => ⟨.garbage, String.ofList text⟩ :: ts

/-- The rest of a comment of which `depth + 1` opening marks are not closed yet, and what follows the comment. -/
def comment : Nat → List Char → Option (List Char × List Char)
  | depth, '(' :: ':' :: cs => (comment (depth + 1) cs).map fun (body, rest) => ('(' :: ':' :: body, rest)
  | 0, ':' :: ')' :: cs => some ([':', ')'], cs)
  | depth + 1, ':' :: ')' :: cs => (comment depth cs).map fun (body, rest) => (':' :: ')' :: body, rest)
  | depth, c :: cs => (comment depth cs).map fun (body, rest) => (c :: body, rest)
  | _, [] => none

/-- The body of a string literal whose opening mark was `q`, and what follows its closing mark. -/
def literalBody (q : Char) : List Char → Option (List Char × List Char)
  | [] => none
  | [c] => if c = q then some ([], []) else none
  | c :: d :: cs =>
    if c = q then
      if d = q then
        match literalBody q cs with
        | some (body, rest) => some (q :: q :: body, rest)
        | none => some ([], d :: cs)
      else some ([], d :: cs)
    else (literalBody q (d :: cs)).map fun (body, rest) => (c :: body, rest)

/-- The fraction that may follow the whole part of a number. A point belongs to the number only with a digit after it. -/
def fraction : List Char → List Char × List Char
  | '.' :: d :: cs =>
    if d.isDigit then ('.' :: d :: cs.takeWhile Char.isDigit, cs.dropWhile Char.isDigit) else ([], '.' :: d :: cs)
  | cs => ([], cs)

/-- The piece that the text `c :: cs` starts with, and the rest of the text. -/
def cut (c : Char) (cs : List Char) : Piece × List Char :=
  if isNameStart c then (.plain .name (c :: cs.takeWhile isNameChar), cs.dropWhile isNameChar)
  else if c.isDigit then
    let (places, rest) := fraction (cs.dropWhile Char.isDigit)
    (.plain .number (c :: (cs.takeWhile Char.isDigit ++ places)), rest)
  else if isBlank c then (.plain .blank (c :: cs.takeWhile isBlank), cs.dropWhile isBlank)
  else match c, cs with
    | '\n', cs => (.plain .newline ['\n'], cs)
    | '\r', '\n' :: cs => (.plain .newline ['\r', '\n'], cs)
    | '\x22', cs =>
      match literalBody '\x22' cs with
      | some (body, rest) => (.literal .double body, rest)
      | none => (.stray ('\x22' :: cs), [])
    | '\x27', cs =>
      match literalBody '\x27' cs with
      | some (body, rest) => (.literal .single body, rest)
      | none => (.stray ('\x27' :: cs), [])
    | '(', ':' :: cs =>
      match comment 0 cs with
      | some (body, rest) => (.plain .comment ('(' :: ':' :: body), rest)
      | none => (.stray ('(' :: ':' :: cs), [])
    | '(', cs => (.plain .parenOpen ['('], cs)
    | ':', '=' :: cs => (.plain .colonEquals [':', '='], cs)
    | ':', cs => (.plain .colon [':'], cs)
    | c, cs =>
      match markKind c with
      | some kind => (.plain kind [c], cs)
      | none => (.stray [c], cs)

/-- The rest of a comment and what follows it are the text it was cut from. -/
theorem comment_append {depth : Nat} {cs body rest : List Char} (h : comment depth cs = some (body, rest)) :
    body ++ rest = cs := by
  fun_induction comment depth cs generalizing body rest with
  | case1 depth cs ih | case3 depth cs ih | case4 depth c cs _ _ _ ih =>
    obtain ⟨⟨b, r⟩, hb, he⟩ := Option.map_eq_some_iff.1 h
    cases he
    simp [ih hb]
  | case2 cs =>
    cases h
    rfl
  | case5 => cases h

/-- The body of a literal, its closing mark and what follows are the text it was cut from. -/
theorem literalBody_append {q : Char} {cs body rest : List Char} (h : literalBody q cs = some (body, rest)) :
    body ++ q :: rest = cs := by
  fun_induction literalBody q cs generalizing body rest with
  | case1 => cases h
  | case2 => cases h; rfl
  | case3 => cases h
  | case4 cs b r hb ih =>
    cases h
    simp [ih hb]
  | case5 => cases h; rfl
  | case6 => cases h; rfl
  | case7 c d cs _ ih =>
    obtain ⟨⟨b, r⟩, hb, he⟩ := Option.map_eq_some_iff.1 h
    cases he
    simp [ih hb]

/-- The fraction and what follows it are the text it was cut from. -/
theorem fraction_append (cs : List Char) : (fraction cs).1 ++ (fraction cs).2 = cs := by
  unfold fraction
  split
  · split <;> simp
  · rfl

/-- The first piece of a text and the rest are the text. -/
theorem cut_append (c : Char) (cs : List Char) : (cut c cs).1.chars ++ (cut c cs).2 = c :: cs := by
  have hf := fraction_append (cs.dropWhile Char.isDigit)
  unfold cut
  split
  · simp [chars]
  split
  · simp [chars, hf]
  split
  · simp [chars]
  split
  · rfl
  · rfl
  · split
    · next hb => simp [chars, Quote.char, literalBody_append hb]
    · simp [chars]
  · split
    · next hb => simp [chars, Quote.char, literalBody_append hb]
    · simp [chars]
  · split
    · next hb => simp [chars, comment_append hb]
    · simp [chars]
  · rfl
  · rfl
  · rfl
  · split <;> rfl

/-- A piece holds at least one character. -/
theorem cut_chars_ne_nil (c : Char) (cs : List Char) : (cut c cs).1.chars ≠ [] := by
  unfold cut
  repeat' split
  all_goals simp [chars]

/-- The rest of a text after its first piece is shorter than the text. -/
theorem length_cut_snd_lt (c : Char) (cs : List Char) : (cut c cs).2.length < (c :: cs).length := by
  have h := congrArg List.length (cut_append c cs)
  have hpos := List.length_pos_iff.2 (cut_chars_ne_nil c cs)
  rw [List.length_append] at h
  omega

end Piece

namespace Token

/-- The tokens of a text, in order. -/
def scan : List Char → List Token
  | [] => []
  | c :: cs => (Piece.cut c cs).1.tokensBefore (scan (Piece.cut c cs).2)
termination_by cs => cs.length
decreasing_by exact Piece.length_cut_snd_lt c cs

/-- The tokens of a source. -/
def ofSource (source : String) : List Token := scan source.toList

end Token

/-- Joining a piece to the tokens of the rest puts its characters in front. -/
theorem Piece.toList_tokensBefore (p : Piece) (ts : List Token) :
    (p.tokensBefore ts).flatMap (fun t => t.text.toList) = p.chars ++ ts.flatMap (fun t => t.text.toList) := by
  fun_cases Piece.tokensBefore p ts <;> simp [Piece.chars, Char.toString]

/-- Nothing is lost, added or moved: the texts of the tokens, put end to end, are the text that was cut. -/
theorem Token.toList_scan (cs : List Char) : (Token.scan cs).flatMap (fun t => t.text.toList) = cs := by
  fun_induction Token.scan cs with
  | case1 => rfl
  | case2 c cs ih => rw [Piece.toList_tokensBefore, ih, Piece.cut_append]

end QueryStubs
