import QueryStubs.Proofs.Reader.Source
import QueryStubs.Proofs.Scan.Comments
import QueryStubs.Proofs.Syntax.Lexical
import QueryStubs.Proofs.Written.Tokens

/-!
# Where a text can be cut

Behind some tokens a text can be cut: behind a semicolon, a brace, the mark that assigns a value, and behind trivia. What is in front of such
a place is cut into the same tokens whatever comes behind it (`Token.scan_behind`), and what is behind it is cut into the same tokens as if
nothing were in front (`Token.scan_suffix`). A blank is an exception in one way: a blank behind it would make it longer.
-/

namespace QueryStubs

/-- The kinds of tokens behind which a text can be cut. -/
def TokenKind.isSeam : TokenKind → Bool
  | semicolon | braceOpen | braceClose | colonEquals | blank | newline | comment => true
  | _ => false

/-- Whether a text can be cut behind a token. -/
def Token.isSeam (t : Token) : Bool := t.kind.isSeam

/-- A text can follow a token without going on in it. -/
def Token.Clears (m : Token) (ds : List Char) : Prop := m.kind = .blank → ∀ d, ds.head? = some d → isBlank d = false

/-- A seam does not stand where another token stands. -/
theorem Token.seam_behind {t m : Token} {ts P Q : List Token} (h : t :: ts = P ++ m :: Q) (hm : m.isSeam = true)
    (ht : t.isSeam = false) : ∃ P', P = t :: P' ∧ ts = P' ++ m :: Q := by
  cases P with
  | nil =>
    rw [(List.cons.inj h).1, hm] at ht
    cases ht
  | cons u P =>
    obtain ⟨rfl, hts⟩ := List.cons.inj h
    exact ⟨P, rfl, hts⟩

/-! ## Pieces -/

namespace Piece

variable {c : Char} {cs body rest front more : List Char}

/-- A character that nothing longer starts with is a mark or a stray character. -/
theorem cut_single (hname : ¬isNameStart c = true) (hdigit : ¬c.isDigit = true) (hblank : ¬isBlank c = true)
    (hnewline : c ≠ '\n') (hdouble : c ≠ '\x22') (hsingle : c ≠ '\x27') (hparen : c ≠ '(') (hcolon : c ≠ ':')
    (hreturn : c = '\r' → cs.head? ≠ some '\n') :
    cut c cs = (match markKind c with | some kind => .plain kind [c] | none => .stray [c], cs) := by
  have hfeed : ∀ ds, c = '\r' → cs = '\n' :: ds → False := fun ds he hds => hreturn he (by rw [hds, List.head?_cons])
  rw [cut, if_neg hname, if_neg hdigit, if_neg hblank]
  · cases markKind c <;> rfl
  exacts [hnewline, hdouble, hsingle, hparen, hcolon, hfeed, fun _ he _ => hparen he, fun _ he _ => hcolon he]

/-- A comment is the same comment whatever follows it. -/
theorem comment_behind {depth : Nat} (h : comment depth cs = some (body, rest)) (ds : List Char) :
    comment depth (body ++ ds) = some (body, ds) :=
  (closesComment_of_comment h).comment_eq ds

/-- A literal is the same literal whatever follows it but a mark like its own. -/
theorem literalBody_behind {q : Char} (h : literalBody q cs = some (body, rest)) (hrest : rest.head? ≠ some q) {ds : List Char}
    (hds : ds.head? ≠ some q) : literalBody q (body ++ q :: ds) = some (body, ds) := by
  have hclose : literalBody q (q :: ds) = some ([], ds) := by
    cases ds with
    | nil => simp [literalBody]
    | cons d ds =>
      have hd : d ≠ q := fun he => hds (congrArg some he)
      rw [literalBody, if_pos rfl, if_neg hd]
  fun_induction literalBody q cs generalizing body rest with
  | case1 => cases h
  | case2 =>
    cases h
    exact hclose
  | case3 => cases h
  | case4 cs b r hb ih =>
    cases h
    rw [List.cons_append, List.cons_append, literalBody, if_pos rfl, if_pos rfl, ih hb hrest]
  | case5 =>
    cases h
    exact absurd rfl hrest
  | case6 =>
    cases h
    exact hclose
  | case7 c d cs hc ih =>
    obtain ⟨⟨b, r⟩, hb, he⟩ := Option.map_eq_some_iff.1 h
    cases he
    have hih := ih hb hrest
    rw [List.cons_append]
    generalize b ++ q :: ds = more at hih
    cases more with
    | nil => cases hih
    | cons e es => rw [literalBody, if_neg hc, hih, Option.map_some]

/-- A literal that another mark follows is one that ends there for want of a third mark. -/
theorem literalBody_open {q : Char} {es : List Char} (h : literalBody q cs = some (body, q :: es)) : literalBody q es = none := by
  fun_induction literalBody q cs generalizing body with
  | case1 => cases h
  | case2 => cases h
  | case3 => cases h
  | case4 cs b r hb ih =>
    cases h
    exact ih hb
  | case5 cs hb =>
    cases h
    exact hb
  | case6 d cs hd =>
    cases h
    exact absurd rfl hd
  | case7 c d cs hc ih =>
    obtain ⟨⟨b, r⟩, hb, he⟩ := Option.map_eq_some_iff.1 h
    cases he
    exact ih hb

/-- A run of characters is the same run whatever follows it that starts with the same character. -/
theorem span_behind {p : Char → Bool} (h : cs.dropWhile p = rest) (es : List Char) (hhead : es.head? = rest.head?) :
    (cs.takeWhile p ++ es).takeWhile p = cs.takeWhile p ∧ (cs.takeWhile p ++ es).dropWhile p = es := by
  have hall : ∀ c ∈ cs.takeWhile p, p c = true := List.all_eq_true.mp List.all_takeWhile
  have hstop : ∀ d, es.head? = some d → p d = false := by
    intro d hd
    have hnot := List.head?_dropWhile_not p cs
    rw [h, ← hhead, hd] at hnot
    simpa using hnot
  obtain ⟨htake, hdrop⟩ := Token.takeWhile_stops hstop
  rw [List.takeWhile_append_of_pos hall, List.dropWhile_append_of_pos hall, htake, hdrop, List.append_nil]
  exact ⟨rfl, rfl⟩

/-- A fraction is the same fraction whatever follows it that starts the same way, unless that is a point alone. -/
theorem fraction_behind {places : List Char} (h : fraction cs = (places, front ++ more)) (hfront : front ≠ []) (hpoint : front ≠ ['.'])
    (ds : List Char) : fraction (places ++ (front ++ ds)) = (places, front ++ ds) := by
  obtain ⟨a, front, rfl⟩ := List.exists_cons_of_ne_nil hfront
  fun_cases fraction cs with
  | case1 d cs hd =>
    rw [fraction, if_pos hd] at h
    obtain ⟨rfl, hrest⟩ := Prod.mk.inj h
    obtain ⟨h1, h2⟩ := span_behind hrest (a :: front ++ ds) rfl
    rw [List.cons_append, List.cons_append, fraction, if_pos hd, h1, h2]
  | case2 d cs hd =>
    rw [fraction, if_neg hd] at h
    obtain ⟨rfl, hrest⟩ := Prod.mk.inj h
    obtain ⟨rfl, hmore⟩ := List.cons.inj hrest
    cases front with
    | nil => exact absurd rfl hpoint
    | cons e front =>
      have he : d = e := (List.cons.inj hmore).1
      simp [fraction, ← he, hd]
  | case3 _ hcs =>
    rw [fraction.eq_2 cs hcs] at h
    obtain ⟨rfl, rfl⟩ := Prod.mk.inj h
    refine fraction.eq_2 _ fun d es he => ?_
    obtain ⟨rfl, he⟩ := List.cons.inj he
    cases front with
    | nil => exact hpoint rfl
    | cons e front => exact hcs e (front ++ more) rfl

/-- A piece is the same piece whatever follows it that starts the same way, unless that is a point alone or another mark behind a literal. -/
theorem cut_behind {p : Piece} (h : cut c cs = (p, front ++ more)) (hfront : front ≠ []) (hpoint : front ≠ ['.'])
    (hmark : ∀ quote text, p = .literal quote text → front.head? ≠ some quote.char) (ds : List Char) :
    ∃ es, p.chars = c :: es ∧ cut c (es ++ (front ++ ds)) = (p, front ++ ds) := by
  obtain ⟨a, front, rfl⟩ := List.exists_cons_of_ne_nil hfront
  -- the two kinds of literals differ in their mark only
  have hquoted : ∀ (quote : Quote) cs text, literalBody quote.char cs = some (text, a :: front ++ more) →
      (∀ q t, Piece.literal quote text = .literal q t → (a :: front).head? ≠ some q.char) →
        cut quote.char (text ++ [quote.char] ++ (a :: front ++ ds)) = (.literal quote text, a :: front ++ ds) := by
    intro quote cs text hb hmark
    have hne : (a :: (front ++ ds)).head? ≠ some quote.char := hmark quote text rfl
    have hlonger := literalBody_behind hb hne hne
    rw [List.append_assoc, List.singleton_append, cut_quote, List.cons_append, hlonger]
  have hsame : ∀ {d : Char}, (a :: front ++ ds).head? = some d → a :: front ++ more = d :: (front ++ more) := fun he =>
    congrArg (· :: (front ++ more)) (Option.some.inj he)
  revert h
  fun_cases cut c cs with
  | case1 c cs hc =>
    intro h
    obtain ⟨rfl, hrest⟩ := Prod.mk.inj h
    obtain ⟨h1, h2⟩ := span_behind hrest (a :: front ++ ds) rfl
    exact ⟨_, rfl, by simp only [cut, if_pos hc, h1, h2]⟩
  | case2 c cs h1 hc places rest hfraction =>
    intro h
    obtain ⟨rfl, rfl⟩ := Prod.mk.inj h
    have hdigits : cs.dropWhile Char.isDigit = places ++ (a :: front ++ more) := by
      rw [← fraction_append (cs.dropWhile Char.isDigit), hfraction]
    have hhead : (places ++ (a :: front ++ ds)).head? = (places ++ (a :: front ++ more)).head? := by
      cases places <;> rfl
    obtain ⟨h2, h3⟩ := span_behind hdigits _ hhead
    have hlonger := fraction_behind hfraction hfront hpoint ds
    refine ⟨_, rfl, ?_⟩
    rw [List.append_assoc]
    simp only [cut, if_neg h1, if_pos hc, h2, h3, hlonger]
  | case3 c cs h1 h2 hc =>
    intro h
    obtain ⟨rfl, hrest⟩ := Prod.mk.inj h
    obtain ⟨h3, h4⟩ := span_behind hrest (a :: front ++ ds) rfl
    exact ⟨_, rfl, by simp only [cut, if_neg h1, if_neg h2, if_pos hc, h3, h4]⟩
  | case4 | case5 | case13 =>
    rintro ⟨⟩
    exact ⟨_, rfl, rfl⟩
  | case6 cs text rest hb =>
    intro h
    obtain ⟨rfl, rfl⟩ := Prod.mk.inj h
    exact ⟨_, rfl, hquoted .double cs text hb hmark⟩
  | case8 cs text rest hb =>
    intro h
    obtain ⟨rfl, rfl⟩ := Prod.mk.inj h
    exact ⟨_, rfl, hquoted .single cs text hb hmark⟩
  | case10 cs text rest hb h1 h2 h3 =>
    intro h
    obtain ⟨rfl, rfl⟩ := Prod.mk.inj h
    refine ⟨_, rfl, ?_⟩
    simp [cut, comment_behind hb, h1, h2, h3]
  | case7 | case9 | case11 =>
    rintro ⟨⟩
  | case12 cs hcs h1 h2 h3 =>
    rintro ⟨⟩
    exact ⟨_, rfl, cut_paren fun he => hcs _ (hsame he)⟩
  | case14 cs hcs h1 h2 h3 =>
    rintro ⟨⟩
    exact ⟨_, rfl, cut_colon fun he => hcs _ (hsame he)⟩
  | case15 c cs hnewline hreturn hdouble hsingle _ hparen _ hcolon kind hkind h1 h2 h3 =>
    rintro ⟨⟩
    have hone : cut c (a :: front ++ ds) = _ :=
      cut_single h1 h2 h3 hnewline hdouble hsingle hparen hcolon fun hc he => hreturn _ hc (hsame he)
    rw [hkind] at hone
    exact ⟨_, rfl, hone⟩
  | case16 c cs hnewline hreturn hdouble hsingle _ hparen _ hcolon hkind h1 h2 h3 =>
    rintro ⟨⟩
    have hone : cut c (a :: front ++ ds) = _ :=
      cut_single h1 h2 h3 hnewline hdouble hsingle hparen hcolon fun hc he => hreturn _ hc (hsame he)
    rw [hkind] at hone
    exact ⟨_, rfl, hone⟩

/-- A token that a text can be cut behind is the same token whatever follows it and does not go on in it. -/
theorem cut_seam {kind : TokenKind} {text : List Char} (h : cut c cs = (.plain kind text, rest)) (hkind : kind.isSeam = true)
    {ds : List Char} (hds : kind = .blank → ∀ d, ds.head? = some d → isBlank d = false) :
    ∃ es, text = c :: es ∧ cut c (es ++ ds) = (.plain kind text, ds) := by
  revert h
  fun_cases cut c cs with
  | case1 | case2 | case12 | case14 =>
    rintro ⟨⟩
    cases hkind
  | case6 | case7 | case8 | case9 | case11 | case16 => rintro ⟨⟩
  | case3 c cs h1 h2 hc =>
    rintro ⟨⟩
    have hall : ∀ c ∈ cs.takeWhile isBlank, isBlank c = true := List.all_eq_true.mp List.all_takeWhile
    obtain ⟨htake, hdrop⟩ := Token.takeWhile_stops (hds rfl)
    refine ⟨_, rfl, ?_⟩
    simp only [cut, if_neg h1, if_neg h2, if_pos hc, List.takeWhile_append_of_pos hall, List.dropWhile_append_of_pos hall, htake, hdrop,
      List.append_nil]
  | case4 | case5 | case13 =>
    rintro ⟨⟩
    exact ⟨_, rfl, rfl⟩
  | case10 cs text rest hb h1 h2 h3 =>
    rintro ⟨⟩
    refine ⟨_, rfl, ?_⟩
    simp [cut, comment_behind hb, h1, h2, h3]
  | case15 c cs hnewline hreturn hdouble hsingle _ hparen _ hcolon kind hmark h1 h2 h3 =>
    rintro ⟨⟩
    have hreturn : c ≠ '\r' := by
      rintro rfl
      cases hmark
    have hone : cut c ds = _ := cut_single h1 h2 h3 hnewline hdouble hsingle hparen hcolon fun hc => absurd hc hreturn
    rw [hmark] at hone
    exact ⟨_, rfl, hone⟩

/-- Where a literal is cut off, its body is what stands in front of its closing mark. -/
theorem body_of_cut {quote : Quote} {text : List Char} (h : cut c cs = (.literal quote text, rest)) :
    literalBody quote.char cs = some (text, rest) := by
  revert h
  fun_cases cut c cs with
  | case6 cs text rest hb | case8 cs text rest hb =>
    rintro ⟨⟩
    exact hb
  | case1 | case2 | case3 | case4 | case5 | case7 | case9 | case10 | case11 | case12 | case13 | case14 | case15 | case16 => rintro ⟨⟩

/-- Where a token that a text can be cut behind stands among the tokens of a text that starts with a piece: it is the piece itself, or it
stands behind the piece, and then the tokens in front of it are those of the piece and of what stands between. -/
theorem seam_of_tokensBefore {p : Piece} {ts P Q : List Token} {m : Token} (h : p.tokensBefore ts = P ++ m :: Q) (hm : m.isSeam = true) :
    (∃ text, p = .plain m.kind text ∧ m.text = String.ofList text ∧ P = [] ∧ Q = ts) ∨
      ∃ P', ts = P' ++ m :: Q ∧ ∀ us, p.tokensBefore (P' ++ m :: us) = P ++ m :: us := by
  cases p with
  | plain kind text =>
    cases P with
    | nil =>
      obtain ⟨rfl, rfl⟩ := List.cons.inj h
      exact .inl ⟨text, rfl, rfl, rfl, rfl⟩
    | cons t P =>
      obtain ⟨rfl, rfl⟩ := List.cons.inj h
      exact .inr ⟨P, rfl, fun us => rfl⟩
  | literal quote text =>
    have hquote : ∀ text, Token.isSeam ⟨quote.kind, text⟩ = false := by
      intro text
      cases quote <;> rfl
    cases text with
    | nil =>
      obtain ⟨P1, hP, h1⟩ := Token.seam_behind h hm (hquote _)
      obtain ⟨P2, hP1, h2⟩ := Token.seam_behind h1 hm (hquote _)
      subst hP hP1
      exact .inr ⟨P2, h2, fun us => rfl⟩
    | cons c cs =>
      obtain ⟨P1, hP, h1⟩ := Token.seam_behind h hm (hquote _)
      obtain ⟨P2, hP1, h2⟩ := Token.seam_behind h1 hm rfl
      obtain ⟨P3, hP2, h3⟩ := Token.seam_behind h2 hm (hquote _)
      subst hP hP1 hP2
      exact .inr ⟨P3, h3, fun us => rfl⟩
  | stray text =>
    by_cases hmerged : ∃ more us, ts = ⟨.garbage, more⟩ :: us
    · obtain ⟨more, us, rfl⟩ := hmerged
      obtain ⟨P1, hP, h1⟩ := Token.seam_behind (show _ :: us = P ++ m :: Q from h) hm rfl
      subst hP
      exact .inr ⟨⟨.garbage, more⟩ :: P1, congrArg (_ :: ·) h1, fun us => rfl⟩
    · have halone : ∀ us : List Token, (∀ more vs, us ≠ ⟨.garbage, more⟩ :: vs) →
          (stray text).tokensBefore us = ⟨.garbage, String.ofList text⟩ :: us := by
        intro us hus
        exact tokensBefore.eq_5 us text fun more vs he => hus more vs he
      rw [halone ts fun more vs he => hmerged ⟨more, vs, he⟩] at h
      obtain ⟨P1, hP, h1⟩ := Token.seam_behind h hm rfl
      subst hP
      refine .inr ⟨P1, h1, fun us => halone _ ?_⟩
      intro more vs he
      cases P1 with
      | nil =>
        rw [Token.isSeam, (List.cons.inj he).1] at hm
        cases hm
      | cons t P1 => exact hmerged ⟨more, P1 ++ m :: Q, by rw [h1, List.cons_append, (List.cons.inj he).1]⟩

end Piece

namespace Token

variable {cs ds : List Char} {P Q : List Token} {m : Token}

/-- What is behind a seam is cut as if nothing were in front of it. -/
theorem scan_suffix (h : scan cs = P ++ m :: Q) (hm : m.isSeam = true) : scan (charsOf Q) = Q := by
  fun_induction scan cs generalizing P with
  | case1 => simp at h
  | case2 c cs ih =>
    rcases Piece.seam_of_tokensBefore h hm with ⟨text, -, -, -, hQ⟩ | ⟨P', hP', -⟩
    · rw [hQ]
      exact congrArg scan (toList_scan _)
    · exact ih hP'

/-- A point starts no token, so what starts with one starts with garbage. -/
theorem scan_point (es : List Char) : ∃ t ts, scan ('.' :: es) = t :: ts ∧ t.isSeam = false := by
  have hcut : Piece.cut '.' es = (.stray ['.'], es) := rfl
  rw [scan_cons, hcut]
  unfold Piece.tokensBefore
  split
  · contradiction
  · contradiction
  · contradiction
  · exact ⟨_, _, rfl, rfl⟩
  · exact ⟨_, _, rfl, rfl⟩

/-- What starts with a mark that opens no literal is garbage to its end. -/
theorem scan_open {quote : Quote} {es : List Char} (h : Piece.literalBody quote.char es = none) :
    ∃ t, scan (quote.char :: es) = [t] ∧ t.isSeam = false := by
  have hnil : scan [] = [] := by rw [scan]
  rw [scan_cons, Piece.cut_quote, h, hnil]
  exact ⟨_, rfl, rfl⟩

/-- A text with a seam is what the tokens up to the seam hold and what is behind. -/
theorem chars_of_seam (h : scan cs = P ++ m :: Q) : cs = charsOf (P ++ [m]) ++ charsOf Q := by
  rw [← List.singleton_append, ← List.append_assoc] at h
  exact chars_of_scan h

/-- None of the tokens up to a seam is empty. -/
theorem filled_of_seam (h : scan cs = P ++ m :: Q) : ∀ t ∈ P ++ [m], t.text.toList ≠ [] := by
  intro t ht he
  have hmem : t ∈ scan cs := by
    rw [h, ← List.singleton_append, ← List.append_assoc]
    exact List.mem_append_left _ ht
  have hpos := size_pos_of_scan cs t hmem
  rw [size, String.toList_eq_nil_iff.mp he] at hpos
  exact absurd hpos (by decide)

/-- They are not a point alone: garbage would start with it, so that there would be two tokens and thus two characters. -/
theorem seam_ne_point (h : scan cs = P ++ m :: Q) (hm : m.isSeam = true) : charsOf (P ++ [m]) ≠ ['.'] := by
  intro he
  have hcs := chars_of_seam h
  have hfilled := filled_of_seam h
  rw [he, List.singleton_append] at hcs
  obtain ⟨t, ts, hts, ht⟩ := scan_point (charsOf Q)
  rw [hcs, hts] at h
  obtain ⟨P', rfl, -⟩ := seam_behind h hm ht
  have hfirst := List.length_pos_iff.mpr (hfilled t (by simp))
  have hlast := List.length_pos_iff.mpr (hfilled m (by simp))
  have hlength := congrArg List.length he
  simp only [List.cons_append, charsOf_cons, charsOf_append, charsOf_nil, List.append_nil, List.length_append,
    List.length_singleton] at hlength
  omega

/-- They do not start with a mark that opens no literal. -/
theorem seam_ne_open {quote : Quote} (h : scan cs = P ++ m :: Q) (hm : m.isSeam = true)
    (hopen : ∀ es, cs = quote.char :: es → Piece.literalBody quote.char es = none) : (charsOf (P ++ [m])).head? ≠ some quote.char := by
  intro he
  obtain ⟨es, hes⟩ := List.head?_eq_some_iff.mp he
  have hcs := chars_of_seam h
  rw [hes, List.cons_append] at hcs
  obtain ⟨t, hscan, ht⟩ := scan_open (hopen _ hcs)
  rw [hcs, hscan] at h
  obtain ⟨P', -, hnil⟩ := seam_behind h hm ht
  simp at hnil

/-- What is in front of a seam is cut the same way whatever is behind it. -/
theorem scan_behind (h : scan cs = P ++ m :: Q) (hm : m.isSeam = true) (hds : m.Clears ds) :
    scan (charsOf (P ++ [m]) ++ ds) = P ++ m :: scan ds := by
  fun_induction scan cs generalizing P with
  | case1 => simp at h
  | case2 c cs ih =>
    rcases hcut : Piece.cut c cs with ⟨p, rest⟩
    rw [hcut] at h ih
    rcases Piece.seam_of_tokensBefore h hm with ⟨text, rfl, htext, rfl, -⟩ | ⟨P', hP', hbefore⟩
    · obtain ⟨es, rfl, hes⟩ := Piece.cut_seam hcut hm hds
      rw [List.nil_append, charsOf_cons, charsOf_nil, List.append_nil, htext, String.toList_ofList, List.cons_append, scan_cons, hes]
      simp only [Piece.tokensBefore, List.nil_append]
      rw [← htext]
    · have hrest : rest = charsOf (P' ++ [m]) ++ charsOf Q := chars_of_seam hP'
      have hfront : charsOf (P' ++ [m]) ≠ [] := by
        intro he
        rw [charsOf_append, charsOf_cons, charsOf_nil, List.append_nil, List.append_eq_nil_iff] at he
        exact filled_of_seam hP' m (by simp) he.2
      -- a literal that another mark follows ended there because that mark opens none
      have hmark : ∀ quote text, p = .literal quote text → (charsOf (P' ++ [m])).head? ≠ some quote.char := by
        rintro quote text rfl
        have hP' : scan rest = P' ++ m :: Q := hP'
        exact seam_ne_open hP' hm fun es he => Piece.literalBody_open (he ▸ Piece.body_of_cut hcut)
      obtain ⟨es, hchars, hes⟩ := Piece.cut_behind (hrest ▸ hcut) hfront (seam_ne_point hP' hm) hmark ds
      have hall : charsOf (P ++ [m]) = p.chars ++ charsOf (P' ++ [m]) := by
        rw [← hbefore []]
        exact Piece.toList_tokensBefore p _
      rw [hall, hchars, List.append_assoc, List.cons_append, scan_cons, hes, ih hP']
      exact hbefore _

/-- A text behind a seam is cut as if the seam were not in front of it. -/
theorem ofSource_behind {w d : String} {ts : List Token} (h : ofSource (w ++ d) = m :: ts) (hm : m.isSeam = true) (hw : m.text = w) :
    ofSource d = ts := by
  have htext : charsOf (m :: ts) = (w ++ d).toList := h ▸ toList_scan _
  rw [charsOf_cons, hw, String.toList_append] at htext
  rw [ofSource, ← List.append_cancel_left htext]
  exact scan_suffix (P := []) h hm

/-- A text that starts with a blank starts with trivia. -/
theorem isBlank_head {t : Token} {ts : List Token} (h : scan cs = t :: ts) (ht : t.isTrivia = false) {c : Char} (hc : cs.head? = some c) :
    isBlank c = false := by
  obtain ⟨rest, rfl⟩ := List.head?_eq_some_iff.mp hc
  cases hb : isBlank c with
  | false => rfl
  | true =>
    have hplain : isNameStart c = false ∧ c.isDigit = false := by
      rcases Bool.or_eq_true_iff.mp hb with h | h <;> (rw [of_decide_eq_true h]; decide)
    have hcut : Piece.cut c rest = (.plain .blank (c :: rest.takeWhile isBlank), rest.dropWhile isBlank) := by
      unfold Piece.cut
      rw [if_neg (by simp [hplain.1]), if_neg (by simp [hplain.2]), if_pos hb]
    rw [scan_cons, hcut] at h
    rw [← (List.cons.inj h).1] at ht
    cases ht

/-! ## Putting other tokens in place of some -/

/-- A text can be cut behind the last of some tokens, if there is any. -/
def Closed (ts : List Token) : Prop := ∀ m, ts.getLast? = some m → m.isSeam = true

theorem Closed.nil : Closed [] := fun _ h => absurd h (by simp)

theorem Closed.append {ts us : List Token} (h : Closed ts) (h' : Closed us) : Closed (ts ++ us) := by
  intro m hm
  rw [List.getLast?_append] at hm
  cases hus : us.getLast? with
  | none =>
    rw [hus] at hm
    exact h m hm
  | some k =>
    rw [hus] at hm
    exact h' m (hus.trans hm)

theorem closed_concat (ts : List Token) {m : Token} (hm : m.isSeam = true) : Closed (ts ++ [m]) := by
  intro k hk
  rw [List.getLast?_concat] at hk
  exact Option.some.inj hk ▸ hm

/-- What is behind tokens that a text can be cut behind is cut as if they were not there. -/
theorem scan_rest (h : scan cs = P ++ Q) (hP : Closed P) : scan (charsOf Q) = Q := by
  cases hlast : P.getLast? with
  | none =>
    obtain rfl := List.getLast?_eq_none_iff.mp hlast
    rw [List.nil_append] at h
    rw [← h]
    exact congrArg scan (toList_scan cs)
  | some m =>
    obtain ⟨P', rfl⟩ := List.getLast?_eq_some_iff.mp hlast
    rw [List.append_assoc, List.singleton_append] at h
    exact scan_suffix h (hP m hlast)

/-- Tokens between two places where a text can be cut can be replaced by the tokens of another text, if this one ends at such a place and
does not go on in what is before it. -/
theorem scan_replace {old new : List Token} {n : Token} (h : scan cs = P ++ (old ++ Q)) (hP : Closed P) (hold : Closed old)
    (hnew : scan ds = new ++ [n]) (hn : n.isSeam = true) (hblank : n.kind ≠ .blank) (hds : ∀ m, P.getLast? = some m → m.Clears ds) :
    scan (charsOf P ++ (ds ++ charsOf Q)) = P ++ (new ++ n :: Q) := by
  have hQ : scan (charsOf Q) = Q := by
    rw [← List.append_assoc] at h
    exact scan_rest h (hP.append hold)
  have hrest : scan (ds ++ charsOf Q) = new ++ n :: Q := by
    have hclears : n.Clears (charsOf Q) := fun hb => absurd hb hblank
    have hbehind := scan_behind hnew hn hclears
    have htext : charsOf (new ++ [n]) = ds := hnew ▸ toList_scan ds
    rwa [htext, hQ] at hbehind
  cases hlast : P.getLast? with
  | none =>
    obtain rfl := List.getLast?_eq_none_iff.mp hlast
    exact hrest
  | some m =>
    obtain ⟨P', rfl⟩ := List.getLast?_eq_some_iff.mp hlast
    have hclears : m.Clears (ds ++ charsOf Q) := by
      intro hb d hd
      cases ds with
      | nil => simp [scan] at hnew
      | cons e es => exact hds m hlast hb d hd
    rw [List.append_assoc, List.singleton_append] at h
    rw [scan_behind h (hP m hlast) hclears, hrest, List.append_assoc, List.singleton_append]

/-- So they can be in a source. -/
theorem ofSource_replace {s d : String} {old new : List Token} {n : Token} (h : ofSource s = P ++ (old ++ Q)) (hP : Closed P)
    (hold : Closed old) (hnew : ofSource d = new ++ [n]) (hn : n.isSeam = true) (hblank : n.kind ≠ .blank)
    (hds : ∀ m, P.getLast? = some m → m.Clears d.toList) : ofSource (textOf P ++ d ++ textOf Q) = P ++ (new ++ n :: Q) := by
  have hall := scan_replace h hP hold hnew hn hblank hds
  rwa [← toList_textOf, ← toList_textOf, ← String.toList_append, ← String.toList_append, ← String.append_assoc] at hall

/-- What is between two marks can be replaced by the tokens of any text that ends at the second mark. -/
theorem ofSource_between {s : String} {opening closing : Token} {old : List Token} (h : ofSource s = P ++ opening :: (old ++ closing :: Q))
    (ho : opening.isSeam = true) (hc : closing.isSeam = true) (hopening : opening.kind ≠ .blank) (hclosing : closing.kind ≠ .blank) :
    s = textOf P ++ opening.text ++ textOf old ++ closing.text ++ textOf Q ∧
      ∀ {b : String} {new : List Token}, ofSource (b ++ closing.text) = new ++ [closing] →
        ofSource (textOf P ++ opening.text ++ b ++ closing.text ++ textOf Q) = P ++ opening :: (new ++ closing :: Q) := by
  have hsplit : ofSource s = (P ++ [opening]) ++ ((old ++ [closing]) ++ Q) := by simp [h]
  have hopened : textOf (P ++ [opening]) = textOf P ++ opening.text := by
    rw [textOf_append, textOf_cons, textOf_nil, String.append_empty]
  refine ⟨?_, fun {b new} hnew => ?_⟩
  · rw [← textOf_ofSource s, h]
    simp [String.append_assoc]
  · have hreplaced := ofSource_replace hsplit (closed_concat P ho) (closed_concat old hc) hnew hc hclosing fun m hm hblank => by
      rw [List.getLast?_concat] at hm
      exact absurd hblank (Option.some.inj hm ▸ hopening)
    rw [hopened, ← String.append_assoc] at hreplaced
    rw [hreplaced, List.append_assoc, List.singleton_append]

end Token

end QueryStubs
