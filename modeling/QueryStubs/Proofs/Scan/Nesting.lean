import Mathlib
import QueryStubs.Proofs.Scan.Boundaries
import QueryStubs.Proofs.Scan.Comments

/-!
# Comments among the tokens of a source

A comment may be put into another one, a token of kind `comment` ends where its marks first match, and where they match nowhere the rest of
the source is garbage (`Token.comments_nest`).
-/

namespace QueryStubs

namespace Piece

/-- A comment is a piece, whatever follows it. -/
theorem cut_comment {cs : List Char} (h : ClosesComment 0 cs) (rest : List Char) :
    cut '(' (':' :: (cs ++ rest)) = (.plain .comment ('(' :: ':' :: cs), rest) := by
  have hstart : isNameStart '(' = false ∧ '('.isDigit = false ∧ isBlank '(' = false := by decide
  simp [cut, hstart, h.comment_eq rest]

/-- Behind a mark that opens no comment everything is stray. -/
theorem cut_unclosed {cs : List Char} (h : comment 0 cs = none) : cut '(' (':' :: cs) = (.stray ('(' :: ':' :: cs), []) := by
  have hstart : isNameStart '(' = false ∧ '('.isDigit = false ∧ isBlank '(' = false := by decide
  simp [cut, hstart, h]

/-- A piece of kind `comment` is one. -/
theorem closesComment_of_cut {c : Char} {cs text : List Char} (h : (cut c cs).1 = .plain .comment text) :
    ∃ body, text = '(' :: ':' :: body ∧ ClosesComment 0 body := by
  unfold cut at h
  repeat' split at h
  all_goals cases h
  · exact ⟨_, rfl, closesComment_of_comment ‹_›⟩
  · next hmark =>
    unfold markKind at hmark
    split at hmark <;> cases hmark

end Piece

namespace Token

/-- A token of kind `comment` is one. -/
theorem closesComment_of_scan (cs : List Char) :
    ∀ t ∈ scan cs, t.kind = .comment → ∃ body, t.text.toList = '(' :: ':' :: body ∧ Piece.ClosesComment 0 body := by
  refine forall_scan (fun c cs kind text hcut hkind => ?_) (fun quote hkind => ?_) (fun _ => nofun) (fun _ => nofun) cs
  · obtain rfl : kind = .comment := hkind
    obtain ⟨body, htext, hbody⟩ := Piece.closesComment_of_cut hcut
    exact ⟨body, by rw [String.toList_ofList, htext], hbody⟩
  · cases quote <;> cases hkind

/-- An opening mark that opens no comment makes what follows it a part of a last token of garbage. -/
theorem scan_unclosed {front cs : List Char} (h : CutBetween front ('(' :: ':' :: cs)) (hnone : Piece.comment 0 cs = none) :
    ∃ ts text, scan (front ++ '(' :: ':' :: cs) = ts ++ [⟨.garbage, text⟩] ∧ '(' :: ':' :: cs <:+ text.toList := by
  obtain ⟨before, hrow⟩ := h.exists_row
  have hstray : Piece.row ('(' :: ':' :: cs) = [.stray ('(' :: ':' :: cs)] := by rw [Piece.row_cons, Piece.cut_unclosed hnone, Piece.row]
  obtain ⟨ts, text, hlast, htext⟩ := Piece.foldr_garbage before (String.ofList ('(' :: ':' :: cs))
  rw [String.toList_ofList] at htext
  refine ⟨ts, text, ?_, htext⟩
  rw [Piece.scan_eq_foldr, hrow, hstray, List.foldr_append]
  exact hlast

/-- A comment with another one in it, and two more texts in front of that one and behind it. -/
def around (u c v : String) : String := "(:" ++ u ++ c ++ v ++ ":)"

/-- A comment stays a comment with another one put around it. -/
theorem ofSource_around {c u v : String} (hc : (ofSource c).map (·.kind) = [.comment])
    (huv : ∀ d ∈ u.toList ++ v.toList, d ≠ '(' ∧ d ≠ ':') (more : String) :
    ofSource (around u c v ++ more) = ⟨.comment, around u c v⟩ :: ofSource more := by
  obtain ⟨t, ht, hkind⟩ : ∃ t, ofSource c = [t] ∧ t.kind = .comment := List.map_eq_singleton_iff.mp hc
  obtain ⟨body, htext, hbody⟩ := closesComment_of_scan c.toList t (by rw [← ofSource, ht]; exact List.mem_singleton_self t) hkind
  have hchars : c.toList = '(' :: ':' :: body := by
    rw [← htext, ← textOf_ofSource c, ht, textOf_cons, textOf_nil, String.append_empty]
  obtain ⟨hu, hv⟩ := List.forall_mem_append.mp huv
  have haround : Piece.ClosesComment 0 (u.toList ++ '(' :: ':' :: (body ++ (v.toList ++ [':', ')']))) :=
    .plain (.opening (hbody.append (.plain .close hv))) hu
  have hall : (around u c v).toList = '(' :: ':' :: (u.toList ++ '(' :: ':' :: (body ++ (v.toList ++ [':', ')']))) := by
    simp [around, hchars]
  rw [ofSource, String.toList_append, hall, List.cons_append, List.cons_append, scan_cons, Piece.cut_comment haround, ← hall]
  simp only [Piece.tokensBefore, String.ofList_toList]
  rfl

/-- A comment with marks around it is one comment, whatever follows. Every comment has as many opening marks as closing ones, and no part of
it from its start on has. Between two tokens, unless it is in a literal, the scanner starts anew, and where it does at an opening mark from
which on no part of the source has as many opening marks as closing ones, all the rest is in a last token of garbage. -/
theorem comments_nest :
    (∀ c u v : String, (ofSource c).map (·.kind) = [.comment] → (∀ d ∈ u.toList ++ v.toList, d ≠ '(' ∧ d ≠ ':') →
      ofSource (around u c v) = [⟨.comment, around u c v⟩] ∧
        ∀ more, ofSource (around u c v ++ more) = ⟨.comment, around u c v⟩ :: ofSource more) ∧
    ∀ source : String,
      (∀ t ∈ ofSource source, t.kind = .comment →
        EvenMarks t.text.toList ∧ ∀ part, part <+: t.text.toList → part ≠ t.text.toList → ¬EvenMarks part) ∧
      (∀ ts us, ofSource source = ts ++ us → Literals ts → CutBetween (charsOf ts) (charsOf us)) ∧
      ∀ front rest, source.toList = front ++ rest → CutBetween front rest → ['(', ':'] <+: rest →
        (∀ part, part <+: rest → ¬EvenMarks part) → ∃ ts text, ofSource source = ts ++ [⟨.garbage, text⟩] ∧ rest <:+ text.toList := by
  refine ⟨fun c u v hc huv => ⟨?_, ofSource_around hc huv⟩, fun source => ⟨fun t ht hkind => ?_, fun _ _ => cutBetween_of_literals, ?_⟩⟩
  · have halone := ofSource_around hc huv ""
    rw [String.append_empty] at halone
    rw [halone, ofSource, String.toList_empty, scan]
  · obtain ⟨body, htext, hbody⟩ := closesComment_of_scan _ t ht hkind
    rw [htext]
    exact hbody.evenMarks
  · rintro front rest hsource hcut ⟨cs, rfl⟩ hnone
    rw [ofSource, hsource]
    exact scan_unclosed hcut (Piece.comment_eq_none hnone)

/-- A comment with a comment in it inside a third one, and behind stray text a mark whose comment is open at the end, because the two marks in
`(:)` share a colon. -/
theorem comments_nest_thrice :
    ofSource (around " x" "(: a (:b:) :)" "\n" ++ "f") = ⟨.comment, "(: x(: a (:b:) :)\n:)"⟩ :: ofSource "f" ∧
      (EvenMarks "(: a (:b:) :)".toList ∧ ¬EvenMarks "(: a (:b:)".toList) ∧
        CutBetween "f(:x:)".toList "<".toList ∧
          ∃ ts text, ofSource "<(: (:) :)" = ts ++ [⟨.garbage, text⟩] ∧ "(: (:) :)".toList <:+ text.toList := by
  have hone : ofSource "(: a (:b:) :)" = [⟨.comment, "(: a (:b:) :)"⟩] := by cbv
  have htwo : ofSource "f(:x:)<" = [⟨.name, "f"⟩, ⟨.comment, "(:x:)"⟩] ++ [⟨.garbage, "<"⟩] := by cbv
  have hcut : CutBetween "<".toList "(: (:) :)".toList :=
    ⟨[.stray ['<']], [.stray "(: (:) :)".toList], by cbv, by decide⟩
  have hnone : ∀ part ∈ "(: (:) :)".toList.inits, ¬EvenMarks part := by decide
  obtain ⟨haround, htokens⟩ := comments_nest
  obtain ⟨heven, hshorter⟩ := (htokens "(: a (:b:) :)").1 ⟨.comment, "(: a (:b:) :)"⟩ (hone ▸ List.mem_singleton_self _) rfl
  refine ⟨(haround "(: a (:b:) :)" " x" "\n" (by rw [hone]; rfl) (by simp)).2 "f", ⟨heven, hshorter _ ?_ (by decide)⟩, ?_, ?_⟩
  · exact ⟨" :)".toList, by decide⟩
  · exact (htokens "f(:x:)<").2.1 _ _ htwo (.other rfl (by decide) (.other rfl (by decide) .nil))
  · exact (htokens "<(: (:) :)").2.2 _ _ (by decide) hcut ⟨" (:) :)".toList, by decide⟩ fun part hpart =>
      hnone part ((List.mem_inits _ _).mpr hpart)

end Token

end QueryStubs
