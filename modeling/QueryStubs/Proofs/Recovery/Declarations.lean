import QueryStubs.Proofs.Opaque.Layout
import QueryStubs.Proofs.Recovery.Skipped
import QueryStubs.Proofs.Recovery.Underway
import QueryStubs.Proofs.Recovery.Unheard

/-!
# One declaration of a broken source

Wherever the reading of a source stands (`Reading.Underway`), a declaration that comes next becomes one node. Among the tokens in it that no
rule asked for no declaration starts, but for the word right behind the first one of a declaration of no known kind
(`declaration_recovers`). And if it is complete, it is read as it is alone, whatever stands around it (`Reading.Underway.whole`).
-/

namespace QueryStubs

open Grammar
open QueryStubs.Tree (leavesOf constructs)

/-- The first of some tokens that is no trivia. -/
def Token.next? (ts : List Token) : Option Token := ts.find? (!·.isTrivia)

/-- The tokens in a declaration of a kind that no rule asked for: all that are in its `error` nodes, and in a declaration of no known kind
all behind the first. -/
def Tree.recovered (kind : NodeKind) (us : List Tree) : List Token :=
  if kind = .error then (leavesOf us).tail else ((constructs us).filter (·.1 = .error)).flatMap (leavesOf ·.2)

/-- What is in a construct of a row is in the row. -/
theorem Tree.mem_leavesOf {x : NodeKind × List Tree} {ts : List Tree} (h : x ∈ constructs ts) {t : Token} (ht : t ∈ leavesOf x.2) :
    t ∈ leavesOf ts := by
  induction ts with
  | nil => cases h
  | cons u us ih =>
    rw [leavesOf, List.mem_append]
    cases u with
    | leaf => exact .inr (ih h)
    | node kind vs =>
      rcases List.mem_cons.mp h with rfl | h
      · exact .inl (leaves_node .. ▸ ht)
      · exact .inr (ih h)

namespace Token

/-- A word that a declaration starts with is no trivia. -/
theorem not_trivia_of_startsDecl {t : Token} (h : t.startsDecl = true) : t.isTrivia = false := by
  by_contra ht
  have hidle : Idle [t] := .of_trivia (List.forall_mem_singleton.mpr (Bool.not_eq_false _ ▸ ht))
  exact nomatch (hidle t (List.mem_singleton_self t)).symm.trans h

/-- Behind trivia the first token that is none is the same. -/
theorem next?_trivia {w : List Token} (hw : AllTrivia w) (ts : List Token) : next? (w ++ ts) = next? ts := by
  have hnone : w.find? (!·.isTrivia) = none := List.find?_eq_none.mpr fun t ht => by simp [hw t ht]
  rw [next?, List.find?_append, hnone, Option.none_or, next?]

theorem next?_cons {t : Token} (ht : t.isTrivia = false) (ts : List Token) : next? (t :: ts) = some t := by
  simp [next?, ht]

/-- Where the first token that is no trivia stands, the trivia in front of it end. -/
theorem lead_unique {w v : List Token} (hw : AllTrivia w) (hv : AllTrivia v) {t u : Token} (ht : t.isTrivia = false)
    (hu : u.isTrivia = false) {ts us : List Token} (h : w ++ t :: ts = v ++ u :: us) : w = v ∧ t :: ts = u :: us := by
  have hlead : ∀ {w : List Token} {t : Token} {ts : List Token}, AllTrivia w → t.isTrivia = false →
      (w ++ t :: ts).takeWhile (·.isTrivia) = w := by
    intro w t ts hw ht
    rw [List.takeWhile_append_of_pos hw, List.takeWhile_cons_of_neg (by simp [ht]), List.append_nil]
  obtain rfl : w = v := (hlead hw ht).symm.trans (h ▸ hlead hv hu)
  exact ⟨rfl, List.append_cancel_left h⟩

end Token

namespace Grammar

/-- A declaration starts with the word that it is known by, and no other word that could start a declaration was taken for it without being
asked for, but for the word right behind the first one of a declaration of no known kind. -/
structure Recovered (kind : NodeKind) (us : List Tree) : Prop where
  starts : ∃ first rest, tokensOf us = first :: rest ∧ first.startsDecl = true
  swallowed : ∀ t ∈ Tree.recovered kind us, t.startsDecl = true →
    kind = .error ∧ ∃ first w rest, leavesOf us = first :: (w ++ t :: rest) ∧ Token.AllTrivia w ∧ Token.Idle rest

/-- A declaration ends with a semicolon, or where nothing but trivia is left or another declaration starts. -/
def Ended (us : List Tree) (left : List Token) : Prop :=
  (∃ vs t, us = vs ++ [.leaf t] ∧ t.kind = .semicolon) ∨ ∀ t, Token.next? left = some t → t.startsDecl = true

/-- The first token left that is no trivia is the one of the lexeme that comes next. -/
theorem Outlook.Lexical.next?_left {o : Outlook} (h : o.Lexical) : Token.next? o.left = o.ahead.head?.map (·.token) := by
  rw [Token.next?, ← List.head?_filter, ← h.tokens_ahead, List.head?_map]

/-- Whether a declaration comes next is told by that token. -/
theorem declAhead_isSome_iff {ls : List Lexeme} :
    (declAhead ls).isSome = true ↔ ∃ t, ls.head?.map (·.token) = some t ∧ t.startsDecl = true := by
  cases ls with
  | nil => simp [declAhead, wordIn]
  | cons l ls => simp [declAhead_isSome]

/-- Which one comes next does not depend on the trivia in front of it. -/
theorem declAhead_placed (o : Outlook) : declAhead o.placed.ahead = declAhead o.ahead := by
  have hword : ∀ i, wordIn i o.placed.ahead = wordIn i o.ahead := by
    obtain ⟨_ | ⟨l, ls⟩, tail, reached⟩ := o
    · exact fun _ => rfl
    · rintro (_ | i)
      · by_cases hk : l.token.kind = .name <;> simp [wordIn, Outlook.placed, Lexeme.bare, Lexeme.kind, Option.filter, hk]
      · rfl
  simp only [declAhead, hword]

/-! ## One declaration -/

/-- What is in `error` nodes of a row, if only the end of the row has such nodes. -/
theorem recovered_of_unspoiled {kind : NodeKind} (hk : kind ≠ .error) {ts us : List Tree} (h : ∀ x ∈ constructs ts, Unspoiled x) :
    ∀ t ∈ Tree.recovered kind (ts ++ us), t ∈ leavesOf us := by
  intro t ht
  rw [Tree.recovered, if_neg hk] at ht
  obtain ⟨x, hx, ht⟩ := List.mem_flatMap.mp ht
  obtain ⟨hx, herror⟩ := List.mem_filter.mp hx
  rw [Tree.constructs_append] at hx
  rcases List.mem_append.mp hx with hx | hx
  · exact absurd (of_decide_eq_true herror) (h x hx)
  · exact Tree.mem_leavesOf hx ht

/-- Of what is taken for a declaration that comes next without being asked for, nothing starts a declaration but the word right behind the
first one of a declaration of no known kind, and it is taken up to a semicolon or the next declaration. -/
theorem throughSemicolon_recovers {kind : NodeKind} {c : Cursor} (hl : c.outlook.Lexical) (hrun : Run c (declBody kind c).2)
    (hk : declAhead c.ahead = some kind) (htrivia : c.outlook.trivia = []) (hparts : c.parts = []) {us : List Tree}
    (hus : (throughSemicolon (declBody kind) c).2.parts = us) :
    (∀ t ∈ Tree.recovered kind us, t.startsDecl = true →
      kind = .error ∧ ∃ first w rest, leavesOf us = first :: (w ++ t :: rest) ∧ Token.AllTrivia w ∧ Token.Idle rest) ∧
        Ended us (throughSemicolon (declBody kind) c).2.left := by
  obtain ⟨⟨⟨skipped, hskipped, hidle⟩, hlexical⟩, hend⟩ := throughSemicolon_skips (hrun.lexical hl)
  have hnot : ∀ {t ts}, t.startsDecl = true → Token.Idle ts → t ∉ ts := fun hstarts h hmem => nomatch (h _ hmem).symm.trans hstarts
  have hadded : ∀ {ts}, (declBody kind c).2.parts = c.parts ++ ts → us = ts ++ skipped := by
    intro ts hts
    rw [← hus, hskipped, hts, hparts, List.nil_append]
  refine ⟨fun t ht hstarts => ?_, ?_⟩
  · rcases kind_of_declAhead hk with rfl | hknown
    · -- Behind its first word such a declaration takes a second one, which may be any.
      cases hahead : c.ahead with
      | nil =>
        rw [hahead] at hk
        cases hk
      | cons l ls =>
        obtain ⟨ts, w, rest, hts, hleaves, hw, hrest, -⟩ := unknownDecl_takes hahead hl
        have hlead : l.lead = [] := by rwa [Reading.outlook, hahead] at htrivia
        have hall : leavesOf us = l.token.asKeyword :: (w ++ (rest ++ leavesOf skipped)) := by simp [hadded hts, hleaves, hlead]
        rw [Tree.recovered, if_pos rfl, hall, List.tail_cons] at ht
        simp only [List.mem_append, hnot hstarts (.of_trivia hw), hnot hstarts hidle, or_false, false_or] at ht
        cases rest with
        | nil => cases ht
        | cons u rest =>
          obtain rfl | hmem := List.mem_cons.mp ht
          · exact ⟨rfl, _, w, rest ++ leavesOf skipped, hall, hw, hrest.append hidle⟩
          · exact absurd hmem (hnot hstarts hrest)
    · obtain ⟨ts, hts, hunspoiled⟩ := knownDecl_adds hknown c
      have hne : kind ≠ .error := by
        rintro rfl
        exact absurd hknown (by decide)
      rw [hadded hts] at ht
      exact absurd (recovered_of_unspoiled hne hunspoiled t ht) (hnot hstarts hidle)
  · rw [hus] at hend
    refine hend.imp_right fun hend t ht => ?_
    have hnext : Token.next? (throughSemicolon (declBody kind) c).2.left = _ := hlexical.next?_left
    rw [hnext] at ht
    rcases hend with hnil | hdecl
    · rw [show (throughSemicolon (declBody kind) c).2.outlook.ahead = [] from hnil] at ht
      cases ht
    · obtain ⟨u, hu, hstarts⟩ := declAhead_isSome_iff.mp hdecl
      obtain rfl := Option.some.inj (hu.symm.trans ht)
      exact hstarts

/-- The first token of a declaration that comes next is the word that it is known by. -/
theorem starts_of_shorter {kind : NodeKind} {o : Outlook} (hl : o.Lexical) (hk : declAhead o.ahead = some kind) {us : List Tree}
    {o' : Outlook} (hl' : o'.Lexical) (hleft : o.left = o.trivia ++ (tokensOf us ++ o'.left)) (hlt : o'.ahead.length < o.ahead.length) :
    ∃ first rest, tokensOf us = first :: rest ∧ first.startsDecl = true := by
  have hplaced : o.placed.left = tokensOf us ++ o'.left := List.append_cancel_left (o.left_placed.symm.trans hleft)
  cases hus : tokensOf us with
  | nil =>
    have htokens := hl.placed.tokens_ahead
    rw [hplaced, hus, List.nil_append, ← hl'.tokens_ahead] at htokens
    have hlength := congrArg List.length htokens
    rw [List.length_map, List.length_map, o.length_placed] at hlength
    omega
  | cons first rest =>
    obtain ⟨_ | ⟨l, ls⟩, tail, reached⟩ := o
    · cases hk
    · rw [hus] at hplaced
      have hfirst : l.token = first := (List.cons.inj hplaced).1
      refine ⟨first, rest, rfl, ?_⟩
      rw [← hfirst, ← @declAhead_isSome l ls, show declAhead (l :: ls) = some kind from hk]
      rfl

/-- A declaration that comes next becomes one node behind the trivia in front of it. -/
theorem declaration_recovers {kind : NodeKind} {c : Cursor} (hu : c.Underway) (ha : c.outlook.Aligned) (hk : declAhead c.ahead = some kind)
    (hp : 66 ≤ c.patience) (hf : c.patience ≤ fullPatience) :
    ∃ us, (declaration kind (declBody kind) c).2.parts = c.parts ++ (leavesFor c.outlook.trivia ++ [.node kind us]) ∧
      c.left = c.outlook.trivia ++ (tokensOf us ++ (declaration kind (declBody kind) c).2.left) ∧ Recovered kind us ∧
        Ended us (declaration kind (declBody kind) c).2.left := by
  let e : Cursor := c.placeTrivia.startNode kind
  have hbare : e.outlook = c.outlook.placed := outlook_placeTrivia c
  have hunderway : e.Underway := by
    have hplaced := ((Run.refl c).placeTrivia).underway hu
    exact ⟨hplaced.ordered, hplaced.scanned, hplaced.cut⟩
  have hke : declAhead e.ahead = some kind := by
    have hahead : e.ahead = c.outlook.placed.ahead := congrArg Outlook.ahead hbare
    rw [hahead, declAhead_placed]
    exact hk
  have hnames : c.outlook.Names (leadingWords kind) := ⟨ha, names_of_declAhead hk⟩
  have hnames' : e.outlook.Names (leadingWords kind) := ⟨hbare ▸ ha.placed, names_of_declAhead hke⟩
  obtain ⟨hrun, -⟩ := declBody_safe kind e.ahead.length e hunderway.ordered ⟨hnames', rfl⟩ (Nat.le_trans (by decide) hp) hf
  obtain ⟨hswallowed, hended⟩ :=
    throughSemicolon_recovers hunderway.scanned.lexical hrun hke (by rw [hbare, Outlook.trivia_placed]) rfl rfl
  have hparts := parts_declaration kind (declBody kind) c
  obtain ⟨hall, -, -, hlt⟩ := declaration_safe kind (declBody_safe kind) c.ahead.length c hu.ordered ⟨hnames, rfl⟩ hp hf
  obtain ⟨ts, hts, hleft⟩ := hall.tokens hu.scanned
  rw [List.append_cancel_left (hts.symm.trans hparts), tokensOf_append, tokensOf_trivia hu.scanned.lexical.trivia, tokensOf_cons,
    Tree.tokens_node, tokensOf_nil, List.append_nil, List.append_assoc] at hleft
  have hstarts := starts_of_shorter hu.scanned.lexical hk (hall.lexical hu.scanned.lexical) hleft hlt
  refine ⟨_, hparts, hleft, ⟨hstarts, hswallowed⟩, ?_⟩
  rw [declaration_eq]
  exact hended

/-- Where a complete declaration comes next, it is read as it would be anywhere. -/
theorem Reading.Underway.whole {kind k : NodeKind} {c : Cursor} (hu : c.Underway) (ha : c.outlook.Aligned)
    (hk : declAhead c.ahead = some kind) {w : List Token} (hw : Token.AllTrivia w) (hkind : k ∈ declKinds) {vs : List Tree}
    (hin : IsInside k vs) {more : List Token} (hleft : c.left = w ++ (tokensOf vs ++ more)) :
    kind = k ∧ (declaration kind (declBody kind) c).2.parts = c.parts ++ (leavesFor w ++ [.node k vs]) := by
  obtain ⟨offset, hcut⟩ := hu.cut
  have hlook : c.outlook = look offset c.reached (tokensOf (leavesFor w ++ [.node k vs]) ++ more) := by
    have htokens : tokensOf (leavesFor w ++ [.node k vs]) ++ more = c.left := by
      rw [hleft, tokensOf_append, tokensOf_trivia hw]
      simp
    rw [htokens, look, hcut]
    rfl
  obtain ⟨_, _, hb⟩ := Spells.node_behind hw k hin.spells hin.fronted offset c.reached more
  rw [← hlook] at hb
  have hsame : declAhead c.ahead = some k := declAhead_of_words (o := c.outlook) (List.mem_append.mp hkind) (words_of_declared hb)
  obtain rfl : kind = k := Option.some.inj (hk.symm.trans hsame)
  exact ⟨rfl, (declaration_whole hkind hu.ordered ha hb).1⟩

end Grammar

end QueryStubs
