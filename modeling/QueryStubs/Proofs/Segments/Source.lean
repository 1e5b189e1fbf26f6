import QueryStubs.Proofs.Scan.Seams
import QueryStubs.Proofs.Syntax.Scans
import QueryStubs.Proofs.Twin.Pairing

/-!
# Sources that hold one declaration

A segment is a source that starts with the word `declare` or `import` and ends with a semicolon, with neither between them and with each
shape of brackets balanced (`IsSegment`). What else is in it does not matter: it can be a declaration or nonsense.

Segments can be put end to end. A text that ends with a semicolon is cut into the same tokens whatever follows it (`Token.scan_append`),
and so segments put end to end have the tokens of the segments one after another (`Token.ofSource_join`).
-/

namespace QueryStubs

open Grammar

/-- Whether a token is a word that a declaration starts with. -/
def Token.startsDecl (t : Token) : Bool := t.isWord "declare" || t.isWord "import"

/-- The word that a declaration starts with is no other word. -/
theorem Token.isWord_of_startsDecl {t : Token} (h : t.startsDecl = true) {word : String} (hd : word ≠ "declare") (hi : word ≠ "import") :
    t.isWord word = false := by
  simp only [startsDecl, isWord, Bool.or_eq_true, Bool.and_eq_true, decide_eq_true_eq] at h
  rcases h with ⟨-, ht⟩ | ⟨-, ht⟩
  · simp [isWord, ht, hd.symm]
  · simp [isWord, ht, hi.symm]

/-- The tokens of a declaration, a right one or not, of which nothing is mistaken for a part of another. -/
structure Token.Delimits (first : Token) (inner : List Token) (last : Token) : Prop where
  starts : first.startsDecl = true
  ends : last.kind = .semicolon
  inside : ∀ t ∈ inner, t.kind ≠ .semicolon ∧ t.startsDecl = false
  parens : Balanced .parenOpen .parenClose (inner.map (·.kind))
  braces : Balanced .braceOpen .braceClose (inner.map (·.kind))
  brackets : Balanced .bracketOpen .bracketClose (inner.map (·.kind))

/-- A source that holds one declaration. -/
def IsSegment (source : String) : Prop :=
  ∃ first inner last, Token.ofSource source = first :: (inner ++ [last]) ∧ Token.Delimits first inner last

instance (first : Token) (inner : List Token) (last : Token) : Decidable (Token.Delimits first inner last) :=
  decidable_of_iff (first.startsDecl = true ∧ last.kind = .semicolon ∧ (∀ t ∈ inner, t.kind ≠ .semicolon ∧ t.startsDecl = false) ∧
      Balanced .parenOpen .parenClose (inner.map (·.kind)) ∧ Balanced .braceOpen .braceClose (inner.map (·.kind)) ∧
        Balanced .bracketOpen .bracketClose (inner.map (·.kind)))
    ⟨fun ⟨h1, h2, h3, h4, h5, h6⟩ => ⟨h1, h2, h3, h4, h5, h6⟩, fun ⟨h1, h2, h3, h4, h5, h6⟩ => ⟨h1, h2, h3, h4, h5, h6⟩⟩

/-- Whether tokens are those of one declaration. -/
def Token.delimited : List Token → Bool
  | [] => false
  | first :: rest => rest.getLast?.any fun last => Token.Delimits first rest.dropLast last

/-- Which sources are segments can be computed. -/
theorem isSegment_iff (source : String) : IsSegment source ↔ Token.delimited (Token.ofSource source) = true := by
  unfold IsSegment
  generalize Token.ofSource source = ts
  constructor
  · rintro ⟨first, inner, last, rfl, hd⟩
    simpa [Token.delimited] using hd
  · intro h
    cases ts with
    | nil => cases h
    | cons first rest =>
      obtain ⟨last, hlast, hd⟩ := (Option.any_eq_true _ _).mp h
      exact ⟨first, rest.dropLast, last, congrArg (first :: ·) (List.dropLast_append_getLast? last hlast).symm, of_decide_eq_true hd⟩

instance : DecidablePred IsSegment := fun source => decidable_of_iff _ (isSegment_iff source).symm

/-! ## Cutting what ends with a semicolon -/

/-- Whether the last of some tokens is a semicolon. -/
def Token.endsDecl (ts : List Token) : Bool := ts.getLast?.any (·.kind = .semicolon)

/-- A text that ends with a semicolon is cut into the same tokens whatever follows it. -/
theorem Token.scan_append {cs : List Char} (h : endsDecl (scan cs) = true) (ds : List Char) : scan (cs ++ ds) = scan cs ++ scan ds := by
  obtain ⟨m, hm, hkind⟩ := (Option.any_eq_true _ _).mp h
  have hkind := of_decide_eq_true hkind
  obtain ⟨front, hscan⟩ := List.getLast?_eq_some_iff.mp hm
  have hseam : m.isSeam = true := by
    rw [isSeam, hkind]
    rfl
  have hclears : m.Clears ds := by
    intro hblank
    rw [hkind] at hblank
    cases hblank
  have htext : charsOf (front ++ [m]) = cs := hscan ▸ toList_scan cs
  have hbehind := scan_behind hscan hseam hclears
  rw [htext] at hbehind
  rw [hbehind, hscan, List.append_assoc, List.singleton_append]

/-! ## Brackets -/

/-- Where brackets are counted, each that opens adds one to the depth and each that closes takes one away. -/
theorem Grammar.depthAfter_count {opens closes stops : TokenKind → Bool} (hd : ∀ k, opens k = true → closes k = false) {n m : Nat}
    {ks : List TokenKind} (h : depthAfter opens closes stops n ks = some m) : n + ks.countP opens = m + ks.countP closes := by
  fun_induction depthAfter opens closes stops n ks with
  | case1 n =>
    cases h
    rfl
  | case2 n k ks ho ih =>
    have hcount := ih h
    rw [List.countP_cons_of_pos ho, List.countP_cons_of_neg (by simp [hd k ho])]
    omega
  | case3 => cases h
  | case4 k ks ho hc n ih =>
    have hcount := ih h
    rw [List.countP_cons_of_neg ho, List.countP_cons_of_pos hc]
    omega
  | case5 => cases h
  | case6 n k ks ho hc hs ih => rw [List.countP_cons_of_neg ho, List.countP_cons_of_neg hc, ih h]

/-- Behind any place in a balanced run no fewer brackets are closed than are opened. -/
theorem Grammar.Balanced.suffix {openKind closeKind : TokenKind} (hne : openKind ≠ closeKind) {ks run : List TokenKind}
    (h : Balanced openKind closeKind ks) (hrun : run <:+ ks) : run.countP (· = openKind) ≤ run.countP (· = closeKind) := by
  obtain ⟨before, rfl⟩ := hrun
  rw [Balanced, depthAfter_append, Option.bind_eq_some_iff] at h
  obtain ⟨m, -, hm⟩ := h
  have hcount := depthAfter_count (fun k hk => by simp [of_decide_eq_true hk, hne]) hm
  omega

/-! ## Segments -/

namespace Token.Delimits

variable {first last : Token} {inner : List Token}

/-- The word that a declaration starts with is a name. -/
theorem kind_first (h : Delimits first inner last) : first.kind = .name := by
  have hstarts := h.starts
  simp only [startsDecl, isWord, Bool.or_eq_true, Bool.and_eq_true, decide_eq_true_eq] at hstarts
  exact hstarts.elim (·.1) (·.1)

/-- No bracket of a declaration stands outside what is between its first and its last token. -/
theorem balanced (h : Delimits first inner last) {openKind closeKind : TokenKind} (ho : openKind.isOpening = true)
    (hc : closeKind.isClosing = true) (hb : Balanced openKind closeKind (inner.map (·.kind))) :
    Balanced openKind closeKind ((first :: (inner ++ [last])).map (·.kind)) := by
  have hother : ∀ (k : TokenKind) ks, k.isOpening = false → k.isClosing = false →
      depthAfter (· = openKind) (· = closeKind) (fun _ => false) 0 (k :: ks) =
        depthAfter (· = openKind) (· = closeKind) (fun _ => false) 0 ks := by
    intro k ks hk hk'
    refine depthAfter_other (decide_eq_false ?_) (decide_eq_false ?_) (by simp) ks
    · rintro rfl
      rw [ho] at hk
      cases hk
    · rintro rfl
      rw [hc] at hk'
      cases hk'
  rw [Grammar.Balanced] at hb ⊢
  rw [List.map_cons, List.map_append, hother _ _ (by rw [h.kind_first]; rfl) (by rw [h.kind_first]; rfl), depthAfter_append, hb,
    Option.bind_some, List.map_singleton, hother _ _ (by rw [h.ends]; rfl) (by rw [h.ends]; rfl)]
  rfl

/-- Behind any token of a declaration no fewer brackets of a shape are closed than are opened. -/
theorem closed (h : Delimits first inner last) {openKind closeKind : TokenKind} (hne : openKind ≠ closeKind)
    (ho : openKind.isOpening = true) (hc : closeKind.isClosing = true) (hb : Balanced openKind closeKind (inner.map (·.kind)))
    {run : List Token} (hrun : run <:+ (first :: (inner ++ [last])).filter (!·.isTrivia)) :
    run.countP (·.kind = openKind) ≤ run.countP (·.kind = closeKind) := by
  obtain ⟨before, hbefore⟩ := hrun
  obtain ⟨front, back, htokens, -, rfl⟩ := List.filter_eq_append_iff.mp hbefore.symm
  have hsuffix : back.map (·.kind) <:+ (first :: (inner ++ [last])).map (·.kind) := by
    rw [htokens]
    exact List.IsSuffix.map _ (List.suffix_append _ _)
  have hcount : ∀ kind : TokenKind, kind.isTrivia = false →
      (back.filter (!·.isTrivia)).countP (·.kind = kind) = (back.map (·.kind)).countP (· = kind) := by
    intro kind hk
    rw [List.countP_filter, List.countP_map]
    refine List.countP_congr fun t _ => ?_
    by_cases ht : t.kind = kind <;> simp [Token.isTrivia, ht, hk]
  rw [hcount openKind (by cases openKind <;> first | rfl | cases ho), hcount closeKind (by cases closeKind <;> first | rfl | cases hc)]
  exact (h.balanced ho hc hb).suffix hne hsuffix

/-- Without its trivia, a declaration does not reach into what is behind it. -/
theorem segment (h : Delimits first inner last) : Segment ((first :: (inner ++ [last])).filter (!·.isTrivia)) where
  last := by
    have hlast : last.isTrivia = false := by rw [isTrivia, h.ends]; rfl
    refine ⟨(first :: inner).filter (!·.isTrivia), last, ?_, h.ends, fun t ht => ?_⟩
    · rw [← List.cons_append, List.filter_append, List.filter_singleton, hlast]
      rfl
    · rcases List.mem_cons.mp (List.mem_of_mem_filter ht) with rfl | ht
      · rw [h.kind_first]
        decide
      · exact (h.inside t ht).1
  words := by
    have hfirst : first.isTrivia = false := by rw [isTrivia, h.kind_first]; rfl
    rw [List.filter_cons, hfirst]
    intro t ht
    have hstarts : t.startsDecl = false := by
      rcases List.mem_append.mp (List.mem_of_mem_filter ht) with ht | ht
      · exact (h.inside t ht).2
      · rw [List.mem_singleton.mp ht, startsDecl, isWord, isWord, h.ends]
        rfl
    simpa [startsDecl] using hstarts
  parens _ hrun := h.closed (by decide) rfl rfl h.parens hrun
  braces _ hrun := h.closed (by decide) rfl rfl h.braces hrun
  brackets _ hrun := h.closed (by decide) rfl rfl h.brackets hrun

end Token.Delimits

namespace Lexeme

/-- Tokens put end to end are cut into lexemes one after another; what is left over of the first is in front of the second. -/
theorem split_append (offset : Nat) (lead ts us : List Token) :
    split offset lead (ts ++ us) =
      ((split offset lead ts).1 ++ (split (offset + Token.sizeOf ts) (split offset lead ts).2 us).1,
        (split (offset + Token.sizeOf ts) (split offset lead ts).2 us).2) := by
  fun_induction split offset lead ts with
  | case1 => simp
  | case2 offset lead t ts ht ih =>
    rw [List.cons_append, split, if_pos ht, ih, Token.sizeOf_cons, Nat.add_assoc]
  | case3 offset lead t ts ht lexemes tail he ih =>
    rw [he] at ih
    rw [List.cons_append, split, if_neg ht, ih, Token.sizeOf_cons, Nat.add_assoc]
    rfl

/-- No trivia are left over behind a token that is none. -/
theorem split_concat (offset : Nat) (lead ts : List Token) {t : Token} (h : t.isTrivia = false) : (split offset lead (ts ++ [t])).2 = [] := by
  rw [split_append]
  simp [split, h]

end Lexeme

namespace IsSegment

/-- A segment ends with a semicolon. -/
theorem endsDecl {s : String} (h : IsSegment s) : Token.endsDecl (Token.ofSource s) = true := by
  obtain ⟨first, inner, last, htokens, hd⟩ := h
  rw [htokens, Token.endsDecl, ← List.cons_append, List.getLast?_concat]
  simp [hd.ends]

/-- Its lexemes are those of one declaration, with no trivia in front of them and none behind them. -/
theorem lexemes {s : String} (h : IsSegment s) (offset : Nat) :
    ∃ l ls, Lexeme.split offset [] (Token.ofSource s) = (l :: ls, []) ∧ l.lead = [] ∧ l.token.startsDecl = true ∧
      Segment ((l :: ls).map (·.token)) := by
  obtain ⟨first, inner, last, htokens, hd⟩ := h
  have hfirst : first.isTrivia = false := by rw [Token.isTrivia, hd.kind_first]; rfl
  have hlast : last.isTrivia = false := by rw [Token.isTrivia, hd.ends]; rfl
  have hcut := Lexeme.tokens_of_split offset [] (first :: (inner ++ [last]))
  have htail := Lexeme.split_concat offset [] (first :: inner) hlast
  rw [Lexeme.split, if_neg (by simp [hfirst])] at hcut
  rw [List.cons_append, Lexeme.split, if_neg (by simp [hfirst])] at htail
  rw [htokens, Lexeme.split, if_neg (by simp [hfirst])]
  refine ⟨_, _, Prod.ext rfl htail, rfl, hd.starts, ?_⟩
  rw [hcut]
  exact hd.segment

end IsSegment

/-- Segments put end to end have the tokens of the segments one after another. -/
theorem Token.ofSource_join {segments : List String} (h : ∀ s ∈ segments, IsSegment s) :
    ofSource (String.join segments) = segments.flatMap ofSource := by
  induction segments with
  | nil => simp [ofSource, scan, String.join]
  | cons s segments ih =>
    obtain ⟨hs, hsegments⟩ := List.forall_mem_cons.mp h
    rw [List.flatMap_cons, ← ih hsegments, ofSource, String.join_cons, String.toList_append, scan_append hs.endsDecl]
    rfl

/-- They have lexemes with no trivia behind the last, and none in front of the first, which is the first word of a declaration. -/
theorem IsSegment.lexemes_flatMap {segments : List String} (h : ∀ s ∈ segments, IsSegment s) (offset : Nat) :
    (Lexeme.split offset [] (segments.flatMap Token.ofSource)).2 = [] ∧
      ∀ l ∈ (Lexeme.split offset [] (segments.flatMap Token.ofSource)).1.head?, l.lead = [] ∧ l.token.startsDecl = true := by
  induction segments generalizing offset with
  | nil => exact ⟨rfl, nofun⟩
  | cons s segments ih =>
    obtain ⟨hs, hsegments⟩ := List.forall_mem_cons.mp h
    obtain ⟨l, ls, hsplit, hlead, hstarts, -⟩ := hs.lexemes offset
    rw [List.flatMap_cons, Lexeme.split_append, hsplit]
    refine ⟨(ih hsegments _).1, fun k hk => ?_⟩
    cases hk
    exact ⟨hlead, hstarts⟩

end QueryStubs
