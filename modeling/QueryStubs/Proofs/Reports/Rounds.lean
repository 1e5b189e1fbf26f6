import QueryStubs.Proofs.Recovery.Resumed
import QueryStubs.Proofs.Reports.Ends
import QueryStubs.Proofs.Reports.Steady

/-!
# What one round of the loop over declarations reports

A round reads one declaration. Its node without trivia at its ends (`Node.core`) starts with the lexeme that comes next and ends where the
round has come to (`Reading.Stands.core`). There are no trivia at the ends of a variable, function or option declaration
(`Node.core_eq_span`). Behind the declaration a setter may be reported as misplaced (`afterDecl_account`). All of this together is what is
known of a round (`prologStep_round`).
-/

namespace QueryStubs

open Grammar
open QueryStubs.Tree (leavesOf)

/-- The range of a node without the trivia at its two ends. -/
def Node.core (n : Node) : Span :=
  let start := n.start + Token.sizeOf (n.leaves.takeWhile (·.isTrivia))
  ⟨start, start + Token.sizeOf ((n.leaves.dropWhile (·.isTrivia)).rdropWhile (·.isTrivia))⟩

/-- The report of a setter behind the first variable, function or option declaration. -/
def Diagnostic.misplaced (span first : Span) : Diagnostic :=
  ⟨.misplacedDeclaration, span, none, [⟨"first function, variable or option declaration", first⟩]⟩

/-- Taking a token as a keyword does not make it trivia. -/
theorem Token.isTrivia_asScanned (t : Token) : t.asScanned.isTrivia = t.isTrivia := by
  unfold Token.asScanned
  split
  · next h => rw [Token.isTrivia, Token.isTrivia, h]; rfl
  · rfl

/-- A node of which the first token is no trivia starts with it, and its core ends with the last that is none. -/
theorem Node.core_of_starts {kind : NodeKind} {us : List Tree} {start : Nat} {t : Token} {ts : List Token} (hus : tokensOf us = t :: ts)
    (ht : t.isTrivia = false) :
    (⟨kind, us, start⟩ : Node).core = ⟨start, start + Token.sizeOf ((tokensOf us).rdropWhile (·.isTrivia))⟩ := by
  have hsame : (·.isTrivia) ∘ Token.asScanned = (·.isTrivia) := funext Token.isTrivia_asScanned
  have htokens := tokensOf_eq us
  cases hleaves : leavesOf us with
  | nil => rw [htokens, hleaves] at hus; cases hus
  | cons u leaves =>
    rw [hleaves] at htokens
    have hu : u.isTrivia = false := by
      rw [htokens, List.map_cons] at hus
      rw [← Token.isTrivia_asScanned, (List.cons.inj hus).1, ht]
    have hsize : Token.sizeOf ((tokensOf us).rdropWhile (·.isTrivia)) = Token.sizeOf ((u :: leaves).rdropWhile (·.isTrivia)) := by
      rw [htokens, List.rdropWhile, ← List.map_reverse, List.dropWhile_map, hsame, ← List.map_reverse, Token.sizeOf_asScanned]
      rfl
    have hall : (⟨kind, us, start⟩ : Node).leaves = u :: leaves := hleaves
    rw [Node.core, hall, hsize, List.takeWhile_cons_of_neg (by simp [hu]), List.dropWhile_cons_of_neg (by simp [hu])]
    rfl

/-- If its last token is none either, its core is all of it. -/
theorem Node.core_eq_span {kind : NodeKind} {us : List Tree} {start : Nat} (hstarts : ∃ t ts, tokensOf us = t :: ts ∧ t.isTrivia = false)
    (hends : ∃ ts t, tokensOf us = ts ++ [t] ∧ t.isTrivia = false) : (⟨kind, us, start⟩ : Node).core = (⟨kind, us, start⟩ : Node).span := by
  obtain ⟨t, ts, hus, ht⟩ := hstarts
  obtain ⟨ts', t', hus', ht'⟩ := hends
  rw [core_of_starts hus ht, hus', List.rdropWhile_concat_neg _ _ _ (by simp [ht']), ← hus', sizeOf_tokensOf]
  rfl

namespace Grammar

variable {tokens : List Token} {c d : Cursor}

/-- In front of a token that is no trivia nothing is dropped from the end of a row. -/
theorem rdropWhile_behind {t : Token} (ht : t.isTrivia = false) (before ts : List Token) :
    (before ++ t :: ts).rdropWhile (·.isTrivia) = before ++ (t :: ts).rdropWhile (·.isTrivia) := by
  induction ts using List.reverseRecOn with
  | nil =>
    have hone : ¬ t.isTrivia = true := by simp [ht]
    rw [List.rdropWhile_concat_neg _ _ _ hone, List.rdropWhile_singleton, if_neg hone]
  | append_singleton ts u ih =>
    rw [← List.cons_append, ← List.append_assoc]
    by_cases hu : u.isTrivia = true
    · rw [List.rdropWhile_concat_pos _ _ _ hu, List.rdropWhile_concat_pos _ _ _ hu, ih]
    · rw [List.rdropWhile_concat_neg _ _ _ hu, List.rdropWhile_concat_neg _ _ _ hu, List.append_assoc]

/-- What was read from one place to another without the trivia in front of it starts with what comes next and ends where the reading is. -/
theorem Reading.Stands.core (hc : c.Stands tokens) (hd : d.Stands tokens) {w : List Token} (hw : Token.AllTrivia w) {us : List Tree}
    (hleft : c.left = w ++ (tokensOf us ++ d.left)) {t : Token} {ts : List Token} (hus : tokensOf us = t :: ts) (ht : t.isTrivia = false)
    {place : Nat} (hplace : place + Token.sizeOf c.left = Token.sizeOf tokens) (kind : NodeKind) :
    c.nextSpan.start = place + Token.sizeOf w ∧ (⟨kind, us, place + Token.sizeOf w⟩ : Node).core = ⟨c.nextSpan.start, d.reached⟩ ∧
      Token.Row tokens ⟨c.nextSpan.start, d.reached⟩ := by
  obtain ⟨-, behind, htokens, -, hcut⟩ := hc
  obtain ⟨-, behind', htokens', hreached, -⟩ := hd
  obtain rfl : place = Token.sizeOf behind := by
    rw [htokens, Token.sizeOf_append] at hplace
    exact Nat.add_right_cancel hplace
  have hstart : c.nextSpan.start = Token.sizeOf behind + Token.sizeOf w := by
    rw [hleft, hus, split_trivia hw, List.cons_append, Lexeme.split, if_neg (by simp [ht])] at hcut
    rw [Cursor.nextSpan, ← (Prod.mk.inj hcut).1]
  have hbehind : behind' = behind ++ w ++ t :: ts := by
    rw [hleft, hus] at htokens
    refine List.append_cancel_right (htokens'.symm.trans ?_)
    rw [htokens]
    simp
  have hend : d.reached = Token.sizeOf behind + Token.sizeOf w + Token.sizeOf ((tokensOf us).rdropWhile (·.isTrivia)) := by
    rw [hreached, hbehind, rdropWhile_behind ht, hus, Token.sizeOf_append, Token.sizeOf_append]
  rw [Node.core_of_starts hus ht, hstart, hend]
  obtain ⟨dropped, hdropped⟩ := List.rdropWhile_prefix (·.isTrivia) (l := tokensOf us)
  refine ⟨rfl, rfl, behind ++ w, (tokensOf us).rdropWhile (·.isTrivia), dropped ++ d.left, ?_, ?_, by rw [Token.sizeOf_append]⟩
  · rw [htokens, hleft, ← List.append_assoc _ dropped, hdropped, List.append_assoc]
  · rw [hus, ← List.nil_append (t :: ts), rdropWhile_behind ht]
    intro hnil
    rw [List.nil_append, List.rdropWhile_eq_nil_iff] at hnil
    simp [ht] at hnil

/-- Behind a declaration nothing changes but that a setter is reported, if there is a declaration that it had to come before and if the last
report was made elsewhere. -/
theorem checkOrder_account (kind : NodeKind) (span : Span) (first : Option Span) (c : Cursor) :
    ((checkOrder kind span first c).2.account = c.account ∧ (first.isSome = true → kind.isSetter = true → c.lastReport = some span.start)) ∨
      ∃ place, first = some place ∧ kind.isSetter = true ∧
        (checkOrder kind span first c).2.account = c.account.tell span.start (.misplaced span place) := by
  rcases checkOrder_run kind span first c with ⟨hrun, hsetter⟩ | ⟨place, hfirst, hk, hrun⟩
  · rw [hrun]
    exact .inl ⟨rfl, fun hf hk => Bool.noConfusion ((hsetter hf).symm.trans hk)⟩
  · rw [hrun]
    rcases account_addReport span.start (.misplaced span place) c with ⟨hlast, hsame⟩ | ⟨-, htold⟩
    · exact .inl ⟨hsame, fun _ _ => hlast⟩
    · exact .inr ⟨place, hfirst, hk, htold⟩

/-- So the range of a declaration is noted, if it is the first that setters have to come before, and its place may be reported. -/
theorem afterDecl_account (kind : NodeKind) (first : Option Span) (start : Nat) (x : Cursor) :
    ∃ d : Cursor, afterDecl kind first start (fun a => pure (true, a)) x =
        ((true, if kind.isBodyDecl = true then some (first.getD ⟨start, d.reached⟩) else first), d) ∧
      d.parts = x.parts ∧ d.outlook = x.outlook ∧
      ((d.account = x.account ∧ (first.isSome = true → kind.isSetter = true → x.lastReport = some start)) ∨
        ∃ place, first = some place ∧ kind.isSetter = true ∧ d.account = x.account.tell start (.misplaced ⟨start, d.reached⟩ place)) := by
  let y : Cursor := x.demand (decide (start ≤ x.reached)) .reversedSpan
  have hy : y.toReading = x.toReading := (demand_keeps _ _ x).1
  have hrun : afterDecl kind first start (fun a => pure (true, a)) x = ((true, if kind.isBodyDecl = true then
      some (first.getD ⟨start, x.reached⟩) else first), (checkOrder kind ⟨start, x.reached⟩ first y).2) := rfl
  obtain ⟨hparts, ho, -⟩ := checkOrder_fields kind ⟨start, x.reached⟩ first y
  have hchecked := checkOrder_account kind ⟨start, x.reached⟩ first y
  generalize (checkOrder kind ⟨start, x.reached⟩ first y).2 = d at hrun hparts ho hchecked
  rw [hy] at hparts ho hchecked
  have hreached : d.reached = x.reached := congrArg Outlook.reached ho
  refine ⟨d, by rw [hrun, hreached], hparts, ho, ?_⟩
  rw [hreached]
  exact hchecked

/-- What is known of a round that reads a declaration: the node that it makes of it behind some trivia, and what it reports. `x` is the place
right behind the declaration, before the order is checked. -/
structure Round (first late : Option Span) (c d x : Cursor) (w : List Token) (kind : NodeKind) (us : List Tree) : Prop where
  trivia : Token.AllTrivia w
  parts : d.parts = c.parts ++ (leavesFor w ++ [.node kind us])
  left : c.left = w ++ (tokensOf us ++ d.left)
  starts : ∃ t ts, tokensOf us = t :: ts ∧ t.isTrivia = false
  ends : kind.isBodyDecl = true → ∃ ts t, tokensOf us = ts ++ [t] ∧ t.isTrivia = false
  run : Run c d
  ahead_ne : c.ahead ≠ []
  outlook : d.outlook = x.outlook
  told : ∀ {B}, c.account.Opens B → Told B c.account.advance x.account ∧ EndsWell B c.account.advance x
  late_eq : late = if kind.isBodyDecl = true then some (first.getD ⟨c.nextSpan.start, d.reached⟩) else first
  checked : (d.account = x.account ∧ (first.isSome = true → kind.isSetter = true → x.lastReport = some c.nextSpan.start)) ∨
    ∃ place, first = some place ∧ kind.isSetter = true ∧
      d.account = x.account.tell c.nextSpan.start (.misplaced ⟨c.nextSpan.start, d.reached⟩ place)

/-- Every round of the loop is one that reads a declaration. -/
theorem prologStep_round {first late : Option Span} {d : Cursor} (h : c.AtDecl first) (hs : prologStep first c = ((true, late), d)) :
    ∃ x w kind us, Round first late c d x w kind us := by
  obtain ⟨kind, hk⟩ := prologStep_more hs
  obtain ⟨e, us, he, hrun, hparts, hleft, hrecovered, -⟩ := prologStep_recovers h hk
  obtain ⟨hsafe, -⟩ := prologStep_safe first _ c h.underway.ordered ⟨⟨h.aligned, h.forward⟩, rfl⟩ h.patient h.le_full
  have hstart : e.nextSpan.start = c.nextSpan.start := by
    rw [← next_account, ← next_account, he]
  rw [hstart] at hrun
  generalize hx : (declaration kind (declBody kind) e).2 = x at hrun hparts hleft
  obtain ⟨d', hafter, hparts', ho, hchecked⟩ := afterDecl_account kind first c.nextSpan.start x
  obtain ⟨hlate, rfl⟩ := Prod.mk.inj (hs.symm.trans (hrun.trans hafter))
  rw [hs] at hsafe
  have hne : c.ahead ≠ [] := fun hn => by rw [hn] at hk; cases hk
  have hstarts : ∃ t ts, tokensOf us = t :: ts ∧ t.isTrivia = false := by
    obtain ⟨t, ts, hus, ht⟩ := hrecovered.starts
    exact ⟨t, ts, hus, Token.not_trivia_of_startsDecl ht⟩
  have hends : kind.isBodyDecl = true → ∃ ts t, tokensOf us = ts ++ [t] ∧ t.isTrivia = false := by
    intro hbody
    obtain ⟨t, ts, hus, -⟩ := hstarts
    have htaken : e.left = c.outlook.trivia ++ (tokensOf us ++ (declaration kind (declBody kind) e).2.left) := by
      rw [hx]
      exact (congrArg Reading.left he).trans hleft
    exact bodyDecl_ends hbody (he.symm ▸ h.underway.scanned.lexical) (he.symm ▸ hne) htaken (hus ▸ List.cons_ne_nil t ts)
  refine ⟨x, c.outlook.trivia, kind, us, ?_⟩
  exact {
    trivia := h.underway.scanned.lexical.trivia
    parts := hparts'.trans hparts
    left := hleft.trans (by rw [show d.left = x.left from congrArg Outlook.left ho])
    starts := hstarts
    ends := hends
    run := hsafe
    ahead_ne := hne
    outlook := ho
    told := fun {B} hb => by
      have htold := declaration_told kind (declBody_takesFirst (B := B) kind) (c := e) (he.symm ▸ hb)
      rw [he, hx] at htold
      exact htold
    late_eq := (Prod.mk.inj hlate).2
    checked := hchecked }

end Grammar

end QueryStubs
