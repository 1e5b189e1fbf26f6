import Mathlib.Data.List.Infix
import QueryStubs.Token.Scan

/-!
# Comments and their marks

`Piece.ClosesComment depth cs` says of a text that it is the rest of a comment of which `depth + 1` opening marks are not closed yet. It is
what the scanner reads behind an opening mark (`closesComment_of_comment`, `ClosesComment.comment_eq`). Such texts can be put together: what
closes a comment can be put into another one (`ClosesComment.append`). With its opening mark it has as many opening marks as closing ones, and
no shorter part from the start on has (`ClosesComment.evenMarks`).
-/

namespace QueryStubs

/-! ## Marks of a text -/

/-- The marks that open and close a comment. -/
inductive CommentMark where
  | opening | closing
  deriving DecidableEq, Repr

/-- The marks of a text from left to right, of which no two share a character. -/
def commentMarks : List Char → List CommentMark
  | '(' :: ':' :: cs => .opening :: commentMarks cs
  | ':' :: ')' :: cs => .closing :: commentMarks cs
  | _ :: cs => commentMarks cs
  | [] => []

/-- A text has marks, and as many opening as closing ones. -/
def EvenMarks (cs : List Char) : Prop :=
  commentMarks cs ≠ [] ∧ (commentMarks cs).count .opening = (commentMarks cs).count .closing

instance (cs : List Char) : Decidable (EvenMarks cs) := inferInstanceAs (Decidable (_ ∧ _))

/-- An opening mark counts. -/
theorem count_opened (cs : List Char) : (commentMarks ('(' :: ':' :: cs)).count .opening = (commentMarks cs).count .opening + 1 ∧
    (commentMarks ('(' :: ':' :: cs)).count .closing = (commentMarks cs).count .closing :=
  ⟨List.count_cons_self, List.count_cons_of_ne (by decide)⟩

/-- So does a closing one. -/
theorem count_closed (cs : List Char) : (commentMarks (':' :: ')' :: cs)).count .opening = (commentMarks cs).count .opening ∧
    (commentMarks (':' :: ')' :: cs)).count .closing = (commentMarks cs).count .closing + 1 :=
  ⟨List.count_cons_of_ne (by decide), List.count_cons_self⟩

/-- A part from the start on of a text that begins with two characters has no mark, or it has the two. -/
theorem prefix_mark {a b : Char} {cs ds : List Char} (h : ds <+: a :: b :: cs) :
    commentMarks ds = [] ∨ ∃ es, ds = a :: b :: es ∧ es <+: cs := by
  rcases List.prefix_cons_iff.mp h with rfl | ⟨es, rfl, hes⟩
  · exact .inl rfl
  rcases List.prefix_cons_iff.mp hes with rfl | ⟨fs, rfl, hfs⟩
  · exact .inl (by simp [commentMarks])
  · exact .inr ⟨fs, rfl, hfs⟩

/-- A character begins no mark with what follows it. -/
structure Unmarked (c : Char) (cs : List Char) : Prop where
  not_opening : c = '(' → cs.head? ≠ some ':'
  not_closing : c = ':' → cs.head? ≠ some ')'

namespace Unmarked

variable {c : Char} {cs ds : List Char}

/-- Most characters begin no mark at all. -/
theorem of_ne (h : c ≠ '(' ∧ c ≠ ':') (cs : List Char) : Unmarked c cs := ⟨fun hc => absurd hc h.1, fun hc => absurd hc h.2⟩

/-- Whether there is a mark is told by the next character. -/
theorem append_iff (h : cs ≠ []) (ds : List Char) : Unmarked c (cs ++ ds) ↔ Unmarked c cs := by
  have hhead : (cs ++ ds).head? = cs.head? := List.head?_append_of_ne_nil _ h
  exact ⟨fun ⟨h1, h2⟩ => ⟨hhead ▸ h1, hhead ▸ h2⟩, fun ⟨h1, h2⟩ => ⟨hhead.symm ▸ h1, hhead.symm ▸ h2⟩⟩

/-- If less follows, there is no mark either. -/
theorem of_prefix (h : Unmarked c cs) (hd : ds <+: cs) : Unmarked c ds := by
  obtain ⟨es, rfl⟩ := hd
  cases ds with
  | nil => exact ⟨nofun, nofun⟩
  | cons d ds => exact (append_iff (List.cons_ne_nil d ds) es).mp h

/-- The marks are those of what follows. -/
theorem commentMarks_cons (h : Unmarked c cs) : commentMarks (c :: cs) = commentMarks cs :=
  commentMarks.eq_3 c cs (fun es hc hcs => h.not_opening hc (by rw [hcs]; rfl)) fun es hc hcs => h.not_closing hc (by rw [hcs]; rfl)

/-- The scanner passes over the character. -/
theorem comment_cons (h : Unmarked c cs) (depth : Nat) :
    Piece.comment depth (c :: cs) = (Piece.comment depth cs).map fun (body, rest) => (c :: body, rest) :=
  Piece.comment.eq_4 depth c cs (fun es hc hcs => h.not_opening hc (by rw [hcs]; rfl))
    (fun es _ hc hcs => h.not_closing hc (by rw [hcs]; rfl)) fun _ es _ hc hcs => h.not_closing hc (by rw [hcs]; rfl)

end Unmarked

namespace Piece

/-! ## The rest of a comment -/

/-- The rest of a comment of which `depth + 1` opening marks are not closed yet. -/
inductive ClosesComment : Nat → List Char → Prop
  | close : ClosesComment 0 [':', ')']
  | opening {depth : Nat} {cs : List Char} : ClosesComment (depth + 1) cs → ClosesComment depth ('(' :: ':' :: cs)
  | closing {depth : Nat} {cs : List Char} : ClosesComment depth cs → ClosesComment (depth + 1) (':' :: ')' :: cs)
  | other {depth : Nat} {c : Char} {cs : List Char} : Unmarked c cs → ClosesComment depth cs → ClosesComment depth (c :: cs)

/-- What the scanner reads is the rest of a comment. -/
theorem closesComment_of_comment {depth : Nat} {cs body rest : List Char} (h : comment depth cs = some (body, rest)) :
    ClosesComment depth body := by
  fun_induction comment depth cs generalizing body rest with
  | case1 depth cs ih =>
    obtain ⟨⟨b, r⟩, hb, he⟩ := Option.map_eq_some_iff.mp h
    cases he
    exact .opening (ih hb)
  | case2 cs =>
    cases h
    exact .close
  | case3 depth cs ih =>
    obtain ⟨⟨b, r⟩, hb, he⟩ := Option.map_eq_some_iff.mp h
    cases he
    exact .closing (ih hb)
  | case4 depth c cs hopening hlast hclosing ih =>
    obtain ⟨⟨b, r⟩, hb, he⟩ := Option.map_eq_some_iff.mp h
    cases he
    have hunmarked : Unmarked c cs := by
      refine ⟨fun hc hhead => ?_, fun hc hhead => ?_⟩ <;> obtain ⟨es, hes⟩ := List.head?_eq_some_iff.mp hhead
      · exact hopening es hc hes
      · cases depth with
        | zero => exact hlast es rfl hc hes
        | succ n => exact hclosing n es rfl hc hes
    exact .other (hunmarked.of_prefix ⟨rest, comment_append hb⟩) (ih hb)
  | case5 => cases h

namespace ClosesComment

variable {depth : Nat} {cs ds : List Char}

theorem ne_nil (h : ClosesComment depth cs) : cs ≠ [] := by cases h <;> exact List.cons_ne_nil _ _

/-- The scanner reads the rest of a comment and leaves what follows. -/
theorem comment_eq (h : ClosesComment depth cs) (rest : List Char) : comment depth (cs ++ rest) = some (cs, rest) := by
  induction h with
  | close => rfl
  | opening _ ih | closing _ ih => simp [comment, ih]
  | other hc h ih =>
    rw [List.cons_append, ((Unmarked.append_iff h.ne_nil rest).mpr hc).comment_cons, ih]
    rfl

/-- Characters that begin no mark may stand in front. -/
theorem plain (h : ClosesComment depth cs) (hds : ∀ d ∈ ds, d ≠ '(' ∧ d ≠ ':') : ClosesComment depth (ds ++ cs) := by
  induction ds with
  | nil => exact h
  | cons d ds ih =>
    obtain ⟨hd, hds⟩ := List.forall_mem_cons.mp hds
    exact .other (.of_ne hd _) (ih hds)

/-- Where one more mark is open, it is left to what follows to close it. -/
theorem append (h : ClosesComment depth cs) (h' : ClosesComment 0 ds) : ClosesComment (depth + 1) (cs ++ ds) := by
  induction h with
  | close => exact .closing h'
  | opening _ ih => exact .opening ih
  | closing _ ih => exact .closing ih
  | other hc hcs ih => exact .other ((Unmarked.append_iff hcs.ne_nil ds).mpr hc) ih

/-- The marks that are open are closed. -/
theorem count_closing (h : ClosesComment depth cs) :
    (commentMarks cs).count .closing = (commentMarks cs).count .opening + (depth + 1) := by
  induction h with
  | close => rfl
  | @opening depth cs _ ih =>
    obtain ⟨hopening, hclosing⟩ := count_opened cs
    omega
  | @closing depth cs _ ih =>
    obtain ⟨hopening, hclosing⟩ := count_closed cs
    omega
  | other hc _ ih => rw [hc.commentMarks_cons, ih]

/-- In front of the last mark one is still open. -/
theorem count_closing_prefix (h : ClosesComment depth cs) (hd : ds <+: cs) (hne : ds ≠ cs) :
    (commentMarks ds).count .closing ≤ (commentMarks ds).count .opening + depth := by
  have hnone : ∀ {ds : List Char} {n : Nat}, commentMarks ds = [] → (commentMarks ds).count .closing ≤ (commentMarks ds).count .opening + n := by
    intro ds n h
    rw [h]
    exact Nat.zero_le _
  induction h generalizing ds with
  | close =>
    rcases prefix_mark hd with hmarks | ⟨es, rfl, hes⟩
    · exact hnone hmarks
    · rw [List.prefix_nil.mp hes] at hne
      exact absurd rfl hne
  | opening _ ih =>
    rcases prefix_mark hd with hmarks | ⟨es, rfl, hes⟩
    · exact hnone hmarks
    · have hless := ih hes fun he => hne (by rw [he])
      obtain ⟨hopening, hclosing⟩ := count_opened es
      omega
  | closing _ ih =>
    rcases prefix_mark hd with hmarks | ⟨es, rfl, hes⟩
    · exact hnone hmarks
    · have hless := ih hes fun he => hne (by rw [he])
      obtain ⟨hopening, hclosing⟩ := count_closed es
      omega
  | other hc _ ih =>
    rcases List.prefix_cons_iff.mp hd with rfl | ⟨es, rfl, hes⟩
    · exact hnone rfl
    · rw [(hc.of_prefix hes).commentMarks_cons]
      exact ih hes fun he => hne (by rw [he])

/-- A whole comment has as many opening marks as closing ones, and no part of it from its start on has but the comment itself. -/
theorem evenMarks (h : ClosesComment 0 cs) :
    EvenMarks ('(' :: ':' :: cs) ∧ ∀ ds, ds <+: '(' :: ':' :: cs → ds ≠ '(' :: ':' :: cs → ¬EvenMarks ds := by
  refine ⟨⟨List.cons_ne_nil _ _, ?_⟩, fun ds hd hne => ?_⟩
  · have hcount := h.count_closing
    obtain ⟨hopening, hclosing⟩ := count_opened cs
    omega
  · rintro ⟨hsome, heven⟩
    rcases prefix_mark hd with hmarks | ⟨es, rfl, hes⟩
    · exact hsome hmarks
    · have hless := h.count_closing_prefix hes fun he => hne (by rw [he])
      obtain ⟨hopening, hclosing⟩ := count_opened es
      omega

end ClosesComment

/-- A mark that opens no such text opens no comment. -/
theorem comment_eq_none {cs : List Char} (h : ∀ ds, ds <+: '(' :: ':' :: cs → ¬EvenMarks ds) : comment 0 cs = none := by
  refine Option.eq_none_iff_forall_ne_some.mpr ?_
  rintro ⟨body, rest⟩ hcomment
  have hprefix : '(' :: ':' :: body <+: '(' :: ':' :: cs := ⟨rest, congrArg ('(' :: ':' :: ·) (comment_append hcomment)⟩
  exact h _ hprefix (closesComment_of_comment hcomment).evenMarks.1

end Piece

end QueryStubs
