import QueryStubs.Proofs.Segments.Source
import QueryStubs.Proofs.Syntax.Prolog
import QueryStubs.Proofs.Twin.Module

/-!
# Reading one declaration wherever it stands

The same declaration is read twice, each time in front of something else. Both times the same node is made of it, the reading stops right
behind its semicolon, and nothing else that later rules go by has changed (`prologStep_alone`).
-/

namespace QueryStubs.Grammar

open QueryStubs

/-- One declaration is compared with itself in front of other lexemes. -/
def alone (ts : List Token) (h : Segment ts) (rest₁ rest₂ : List Lexeme) : Pairing where
  whole := False
  reports := False
  segment := ts
  rest₁ := rest₁
  rest₂ := rest₂
  limit₁ := 0
  limit₂ := 0
  same _ _ := True
  leads := Eq
  leads_nil := rfl
  rest_whole := False.elim
  segment_part _ := h
  same_inj := False.elim
  same_inside := False.elim

variable {K : Pairing} {ts : List Token} {h : Segment ts} {rest₁ rest₂ : List Lexeme}

/-- Trees are compared to the letter. -/
def equalRows (ts : List Token) (h : Segment ts) (rest₁ rest₂ : List Lexeme) : Rows (alone ts h rest₁ rest₂) := .letters _ id

/-- Inside every node too. -/
theorem equalRows_inside (kind : NodeKind) {us vs : List Tree} :
    ((equalRows ts h rest₁ rest₂).inside kind).rows.rel us vs ↔ us = vs := by
  cases kind <;> exact Iff.rfl

/-- A declaration comes next just if its first word does. -/
theorem declAhead_isSome {l : Lexeme} {ls : List Lexeme} : (declAhead (l :: ls)).isSome = l.token.startsDecl := by
  have hiff := startsDecl_iff (o := ⟨l :: ls, [], 0⟩)
  rw [Bool.eq_iff_iff, Option.isSome_iff_ne_none, ← hiff]
  simp [StartsDecl, IsWordAt, Token.startsDecl]

/-- Behind its first token no word of a declaration starts another one. -/
theorem Segment.startsDecl_false (h : Segment ts) {t : Token} {run : List Token} (hsuffix : t :: run <:+ ts) (hless : t :: run ≠ ts) :
    t.startsDecl = false := by
  cases ts with
  | nil => cases List.suffix_nil.mp hsuffix
  | cons first ts =>
    have htail : t :: run <:+ ts := (List.suffix_cons_iff.mp hsuffix).resolve_left hless
    obtain ⟨hdeclare, himport⟩ := h.words t (htail.subset (List.mem_cons_self ..))
    rw [Token.startsDecl, hdeclare, himport]
    rfl

/-- Reading on to the semicolon of a declaration leaves only the semicolon. -/
theorem toSemicolon_alone {kind : NodeKind} {c d : Cursor}
    (ht : ((equalRows ts h rest₁ rest₂).inside kind).Twin False c.toReading d.toReading) (hs : Outlook.Starts kind c.outlook)
    (hn : (toSemicolon (declBody kind) c).2.defects = []) :
    ∃ l k, l.kind = .semicolon ∧ (toSemicolon (declBody kind) c).2.ahead = l :: rest₁ ∧ (toSemicolon (declBody kind) d).2.ahead = k :: rest₂ ∧
      l.lead = k.lead ∧ l.token = k.token ∧ (toSemicolon (declBody kind) c).2.parts = (toSemicolon (declBody kind) d).2.parts ∧
        (toSemicolon (declBody kind) c).2.modulePrefix = none ∧ (toSemicolon (declBody kind) c).2.tail = [] := by
  obtain ⟨hstops, hq⟩ := (toSemicolon_mirrors (declBody_mirrors (T := equalRows ts h rest₁ rest₂) kind)).agree c d ht hs hn
  obtain ⟨run₁, run₂, hc, hd, hp, hl⟩ := hq.ahead
  obtain ⟨inner, semicolon, hrun, hkind, hinner⟩ := hl.ends id
  obtain ⟨hsuffix, hne, hless⟩ := hl.resolve_left id
  obtain ⟨hbound, htail⟩ := hq.alone.resolve_left id
  -- Nothing but a semicolon stops the reading, since no other declaration starts in what is left of this one.
  have hinner : inner = [] := by
    cases inner with
    | nil => rfl
    | cons l ls =>
      refine absurd ?_ (hinner l (List.mem_cons_self ..))
      have ho : (toSemicolon (declBody kind) c).2.outlook.ahead = l :: (ls ++ [semicolon] ++ rest₁) := by
        rw [← List.cons_append, ← List.cons_append, ← hrun]
        exact hc
      rcases hstops with hend | hsemicolon | hdecl
      · rw [ho] at hend
        cases hend
      · simpa [Outlook.KindAt, ho] using hsemicolon
      · rw [ho, declAhead_isSome] at hdecl
        rw [hrun] at hsuffix hless
        rw [h.startsDecl_false hsuffix (hless trivial)] at hdecl
        cases hdecl
  subst hinner hrun
  cases hp with
  | @cons _ _ k _ ks hpair _ hrest =>
    cases hrest
    exact ⟨semicolon, k, hkind, hc, hd, hpair.lead, hpair.token, (equalRows_inside kind).mp hq.parts, hbound, htail⟩

/-- A lexeme of the kind that is asked for is taken. -/
theorem accept_past {kind : TokenKind} {c : Cursor} {l : Lexeme} {ls : List Lexeme} (ha : c.ahead = l :: ls) (hk : l.kind = kind) :
    (accept kind c).2.toReading = c.toReading.past (leavesFor l.tokens) [l] ls := by
  obtain ⟨b, d, hrun, hd, hb⟩ := (sees_looks kind).keeps.peel (c := c) rfl fun b => if b = true then (do take; return true) else return false
  have hsees : b = true := hb.mpr (by simp [Outlook.KindAt, Reading.outlook, ha, hk])
  have hrun : accept kind c = (take >>= fun _ => pure true : Rule Bool) d := by rw [accept, hrun, if_pos hsees]
  rw [hrun]
  exact take_past hd ha

/-- Where no trivia come next, placing them changes nothing. -/
theorem placeTrivia_of_none {c : Cursor} (h : c.nextTrivia = []) : c.placeTrivia = c := by
  obtain ⟨⟨parts, ahead, tail, _, _, _, _, _⟩, _, _, _⟩ := c
  unfold Cursor.nextTrivia at h
  cases ahead with
  | nil =>
    cases h
    simp [Cursor.placeTrivia, Cursor.nextTrivia]
  | cons l ls =>
    obtain ⟨lead, _, _⟩ := l
    cases h
    simp [Cursor.placeTrivia, Cursor.nextTrivia]

/-- A node starts where the reading is then. -/
theorem node_of_none {kind : NodeKind} {x : Rule α} {c : Cursor} (h : c.nextTrivia = []) :
    (node kind x c).2 = (x (c.startNode kind)).2.finishNode kind c.parts := by
  have hrun : node kind x c = nodeWithLead kind x c.placeTrivia := rfl
  rw [hrun, placeTrivia_of_none h]
  rfl

/-- A reader stands in front of lexemes, before any module declaration and with no trivia at the end. -/
structure Reading.StandsAt (s : Reading) (ls : List Lexeme) : Prop where
  ahead : s.ahead = ls
  modulePrefix : s.modulePrefix = none
  tail : s.tail = []

/-- Readers stand in front of the same declaration, which starts without trivia. -/
def Facing (h : Segment ts) (rest₁ rest₂ : List Lexeme) (c d : Reading) : Prop :=
  ∃ l ls k ks, c.StandsAt (l :: ls ++ rest₁) ∧ d.StandsAt (k :: ks ++ rest₂) ∧
    (alone ts h rest₁ rest₂).Paired false (l :: ls) (k :: ks) ∧ (l :: ls).map (·.token) = ts ∧ l.lead = []

/-- It does not matter what was made of what is behind them. -/
theorem Facing.inside {c d : Reading} (hf : Facing h rest₁ rest₂ c d) :
    Facing h rest₁ rest₂ { c with parts := [] } { d with parts := [] } := by
  obtain ⟨l, ls, k, ks, hc, hd, hrest⟩ := hf
  exact ⟨l, ls, k, ks, ⟨hc.ahead, hc.modulePrefix, hc.tail⟩, ⟨hd.ahead, hd.modulePrefix, hd.tail⟩, hrest⟩

/-- They are at corresponding places. -/
theorem Facing.twin {T : Rows (alone ts h rest₁ rest₂)} {c d : Reading} (hf : Facing h rest₁ rest₂ c d)
    (hparts : T.rows.rel c.parts d.parts) : T.Twin False c d := by
  obtain ⟨l, ls, k, ks, hc, hd, hp, htokens, -⟩ := hf
  refine ⟨⟨l :: ls, k :: ks, hc.ahead, hd.ahead, hp, .inr ⟨?_, List.cons_ne_nil _ _, False.elim⟩⟩, hparts,
    hc.modulePrefix.trans hd.modulePrefix.symm, .inr ⟨hc.modulePrefix, hc.tail⟩, False.elim⟩
  rw [htokens]
  exact List.suffix_rfl

/-- A declaration is read to the end of its semicolon, with the same result both times. -/
theorem throughSemicolon_alone {kind : NodeKind} {c d : Cursor} (hf : Facing h rest₁ rest₂ c.toReading d.toReading)
    (hs : declAhead c.ahead = some kind) (hparts : c.parts = d.parts) (hn : (throughSemicolon (declBody kind) c).2.defects = []) :
    (throughSemicolon (declBody kind) c).2.parts = (throughSemicolon (declBody kind) d).2.parts ∧
      (throughSemicolon (declBody kind) c).2.StandsAt rest₁ := by
  have ht : ((equalRows ts h rest₁ rest₂).inside kind).Twin False c.toReading d.toReading := hf.twin ((equalRows_inside kind).mpr hparts)
  obtain ⟨m, n, hm, hc', hd', hlead, htoken, hsame, hbound, htail⟩ :=
    toSemicolon_alone ht hs (accept_keeping .semicolon _ hn)
  have hn : n.kind = .semicolon := by rw [Lexeme.kind, ← htoken]; exact hm
  rw [throughSemicolon, bind_run, bind_run, accept_past hc' hm, accept_past hd' hn]
  refine ⟨?_, rfl, hbound, htail⟩
  rw [Reading.past, Reading.past, hsame, Lexeme.tokens, Lexeme.tokens, hlead, htoken]

/-- The same node is made of a declaration both times, and the reading goes on right behind it. -/
theorem declaration_alone {kind : NodeKind} {c d : Cursor} (hf : Facing h rest₁ rest₂ c.toReading d.toReading)
    (hs : declAhead c.ahead = some kind) (hn : (declaration kind (declBody kind) c).2.defects = []) :
    (∃ us, (declaration kind (declBody kind) c).2.parts = c.parts ++ [.node kind us] ∧
      (declaration kind (declBody kind) d).2.parts = d.parts ++ [.node kind us]) ∧
      (declaration kind (declBody kind) c).2.StandsAt rest₁ := by
  obtain ⟨l, ls, k, ks, hc, hd, hp, -, hlead⟩ := id hf
  have hklead : k.lead = [] := by
    cases hp with
    | cons hpair _ _ => exact hpair.lead.symm.trans hlead
  rw [declaration_eq, node_of_none (by rw [Cursor.nextTrivia, hc.ahead]; exact hlead)] at hn ⊢
  rw [node_of_none (by rw [Cursor.nextTrivia, hd.ahead]; exact hklead)]
  obtain ⟨hsame, hat⟩ := throughSemicolon_alone (c := c.startNode kind) (d := d.startNode kind) hf.inside hs rfl hn
  refine ⟨⟨_, rfl, ?_⟩, hat.ahead, hat.modulePrefix, hat.tail⟩
  rw [hsame]
  rfl

/-! ## One round of the loop over declarations -/

/-- Whether a declaration comes too late changes only the reports. -/
theorem checkOrder_fields (kind : NodeKind) (span : Span) (first : Option Span) (c : Cursor) :
    (checkOrder kind span first c).2.parts = c.parts ∧ (checkOrder kind span first c).2.outlook = c.outlook ∧
      ∀ ls, c.StandsAt ls → (checkOrder kind span first c).2.StandsAt ls := by
  rcases checkOrder_run kind span first c with ⟨hrun, -⟩ | ⟨place, -, -, hrun⟩
  · rw [hrun]
    exact ⟨rfl, rfl, fun _ h => h⟩
  · obtain ⟨h1, h2, h3, -⟩ := addReport_fields c span.start ⟨.misplacedDeclaration, span, none,
      [⟨"first function, variable or option declaration", place⟩]⟩
    have h4 := (addReport_frame c span.start ⟨.misplacedDeclaration, span, none,
      [⟨"first function, variable or option declaration", place⟩]⟩).1
    rw [hrun]
    exact ⟨h2, h4, fun ls h => ⟨h1.trans h.ahead, h3.trans h.modulePrefix, (congrArg Outlook.tail h4).trans h.tail⟩⟩

/-- What is done behind a declaration changes neither the trees nor what is ahead. -/
theorem afterDecl_fields (kind : NodeKind) (first : Option Span) (start : Nat) (c : Cursor) :
    ∃ late d, afterDecl kind first start (fun a => (pure (true, a) : Rule (Bool × Option Span))) c = ((true, late), d) ∧
      d.parts = c.parts ∧ d.outlook = c.outlook ∧ (∀ ls, c.StandsAt ls → d.StandsAt ls) ∧ (d.defects = [] → c.defects = []) := by
  have hdemand : (c.demand (start ≤ c.reached) .reversedSpan).toReading = c.toReading := (demand_keeps _ _ c).1
  obtain ⟨hparts, ho, hat⟩ := checkOrder_fields kind ⟨start, c.reached⟩ first (c.demand (start ≤ c.reached) .reversedSpan)
  refine ⟨_, _, rfl, hparts.trans (congrArg Reading.parts hdemand), ho.trans (congrArg Reading.outlook hdemand),
    fun ls h => hat ls (by rw [hdemand]; exact h), fun hn => ?_⟩
  exact (demand_met (checkOrder_keeping kind ⟨start, c.reached⟩ first _ hn)).2

/-- What a round of the loop does goes by whether a declaration comes next. -/
theorem prologStep_peel (first : Option Span) (c : Cursor) : ∃ d : Cursor, d.toReading = c.toReading ∧
    prologStep first c = (match declAhead c.ahead with
      | none => (pure (false, first) : Rule (Bool × Option Span))
      | some kind => nextSpan >>= fun span => declaration kind (declBody kind) >>= fun _ =>
        afterDecl kind first span.start fun a => pure (true, a)) d := by
  obtain ⟨upcoming, d, hrun, hd, rfl⟩ := upcomingDecl_looks.keeps.peel (c := c) rfl fun upcoming =>
    match upcoming with
    | none => (pure (false, first) : Rule (Bool × Option Span))
    | some kind => nextSpan >>= fun span => declaration kind (declBody kind) >>= fun _ =>
      afterDecl kind first span.start fun a => pure (true, a)
  exact ⟨d, hd, hrun⟩

/-- Where a declaration comes next, a round of the loop reads it, after a few looks, and does what is done behind it. -/
theorem prologStep_run (first : Option Span) {kind : NodeKind} {c : Cursor} (hk : declAhead c.ahead = some kind) :
    ∃ e : Cursor, e.toReading = c.toReading ∧
      prologStep first c = afterDecl kind first e.nextSpan.start (fun a => pure (true, a)) (declaration kind (declBody kind) e).2 ∧
        e.patience ≤ c.patience ∧ (4 ≤ c.patience → c.patience ≤ e.patience + 4) := by
  obtain ⟨hd, hupcoming, hle, hspent⟩ := upcomingDecl_looks c
  rw [show declAhead c.outlook.ahead = some kind from hk] at hupcoming
  refine ⟨(upcomingDecl c).2.look, hd, ?_, hle, fun hp => (hspent hp).2⟩
  rw [prologStep, bind_run, hupcoming]
  rfl

/-- The round that ends the loop has only looked, and no declaration came next. -/
theorem prologStep_last {first late : Option Span} {c d : Cursor} (hs : prologStep first c = ((false, late), d)) :
    declAhead c.ahead = none ∧ late = first ∧ d.toReading = c.toReading := by
  cases hk : declAhead c.ahead with
  | none =>
    obtain ⟨e, he, hrun⟩ := prologStep_peel first c
    rw [hk] at hrun
    obtain ⟨hlate, rfl⟩ := Prod.mk.inj (hs.symm.trans hrun)
    exact ⟨rfl, (Prod.mk.inj hlate).2, he⟩
  | some kind =>
    obtain ⟨e, -, hrun, -⟩ := prologStep_run first hk
    obtain ⟨_, _, hafter, -⟩ := afterDecl_fields kind first e.nextSpan.start (declaration kind (declBody kind) e).2
    exact nomatch (Prod.mk.inj (Prod.mk.inj (hs.symm.trans (hrun.trans hafter))).1).1

/-- Every other round reads the declaration that comes next. -/
theorem prologStep_more {first late : Option Span} {c d : Cursor} (hs : prologStep first c = ((true, late), d)) :
    ∃ kind, declAhead c.ahead = some kind := by
  cases hk : declAhead c.ahead with
  | none =>
    obtain ⟨_, -, hrun⟩ := prologStep_peel first c
    rw [hk] at hrun
    exact nomatch (Prod.mk.inj (Prod.mk.inj (hs.symm.trans hrun)).1).1
  | some kind => exact ⟨kind, rfl⟩

/-- Where nothing is left, no declaration is read. -/
theorem prologStep_end (first : Option Span) {c : Cursor} (ha : c.ahead = []) :
    ∃ d, prologStep first c = ((false, first), d) ∧ Cursor.toReading d = c.toReading := by
  obtain ⟨d, hd, hrun⟩ := prologStep_peel first c
  rw [ha] at hrun
  exact ⟨d, hrun, hd⟩

/-- If nothing goes wrong in a round, nothing was wrong before. -/
theorem prologStep_keeping (T : Rows K) (first : Option Span) : Keeping (prologStep first) := by
  refine (upcomingDecl_mirrors (T := T) (p := True) (P := Anywhere)).keeping.bind fun upcoming => ?_
  match upcoming with
  | none => exact fun _ hn => hn
  | some kind =>
    have hdecl : Keeping (declaration kind (declBody kind)) := by
      rw [declaration_eq]
      exact node_keeping ((toSemicolon_mirrors (declBody_mirrors (T := T) (p := True) kind)).keeping.bind fun _ => accept_keeping .semicolon)
    refine Keeping.bind (fun _ hn => hn) fun span => hdecl.bind fun _ c hn => ?_
    obtain ⟨late, d, hrun, -, -, -, hdefects⟩ := afterDecl_fields kind first span.start c
    have hn : (afterDecl kind first span.start (fun a => (pure (true, a) : Rule (Bool × Option Span))) c).2.defects = [] := hn
    rw [hrun] at hn
    exact hdefects hn

/-- The lexemes of the same tokens differ in their places only. -/
theorem paired_split (after : Bool) (m n : Nat) (lead us : List Token) :
    (alone ts h rest₁ rest₂).Paired after (Lexeme.split m lead us).1 (Lexeme.split n lead us).1 := by
  induction us generalizing after m n lead with
  | nil => exact .nil after
  | cons u us ih =>
    rw [Lexeme.split, Lexeme.split]
    split
    · exact ih ..
    · exact .cons ⟨rfl, rfl, trivial⟩ (fun _ => rfl) (ih ..)

/-- The trees that are made of the declaration that a source starts with. -/
def declTrees (source : String) : List Tree := (prologStep none (.start source)).2.parts

/-- Where a segment comes next, one round of the loop makes of it the one node that it would make of it alone, and stops behind it. -/
theorem prologStep_alone {s : String} (hs : IsSegment s) (first : Option Span) {offset : Nat} {rest : List Lexeme} {c : Cursor}
    (hc : c.StandsAt ((Lexeme.split offset [] (Token.ofSource s)).1 ++ rest)) (hn : (prologStep first c).2.defects = []) :
    ∃ late d, prologStep first c = ((true, late), d) ∧ d.parts = c.parts ++ declTrees s ∧ d.StandsAt rest ∧
      ∃ kind us, declTrees s = [.node kind us] := by
  obtain ⟨l, ls, hsplit, hlead, hstarts, hseg⟩ := hs.lexemes offset
  obtain ⟨k, ks, hsplit', -, -, -⟩ := hs.lexemes 0
  have hstart : (Cursor.start s).StandsAt (k :: ks ++ []) := by
    have hcut : Lexeme.ofTokens (Token.ofSource s) = (k :: ks, []) := hsplit'
    refine ⟨?_, rfl, ?_⟩
    · rw [Cursor.start, hcut, List.append_nil]
    · rw [Cursor.start, hcut]
  have hp : (alone _ hseg rest []).Paired false (l :: ls) (k :: ks) := by
    have hpaired : (alone _ hseg rest []).Paired false (Lexeme.split offset [] (Token.ofSource s)).1
        (Lexeme.split 0 [] (Token.ofSource s)).1 := paired_split ..
    rwa [hsplit, hsplit'] at hpaired
  rw [hsplit] at hc
  have hf : Facing hseg rest [] c.toReading (Cursor.start s).toReading := ⟨l, ls, k, ks, hc, hstart, hp, rfl, hlead⟩
  obtain ⟨kind, hkind⟩ : ∃ kind, declAhead c.ahead = some kind := by
    rw [← Option.isSome_iff_exists, hc.ahead]
    exact declAhead_isSome.trans hstarts
  have ht : (equalRows _ hseg rest []).Twin False { c.toReading with parts := [] } { (Cursor.start s).toReading with parts := [] } :=
    hf.inside.twin rfl
  have hsame : declAhead c.ahead = declAhead (Cursor.start s).ahead := ht.declAhead_eq
  obtain ⟨e, he, hrun, -⟩ := prologStep_run first hkind
  obtain ⟨e', he', hrun', -⟩ := prologStep_run none (hsame.symm.trans hkind)
  obtain ⟨late, d, hd, hparts, -, hat, hdefects⟩ := afterDecl_fields kind first e.nextSpan.start (declaration kind (declBody kind) e).2
  obtain ⟨late', d', hd', hparts', -⟩ := afterDecl_fields kind none e'.nextSpan.start (declaration kind (declBody kind) e').2
  rw [hrun, hd] at hn
  obtain ⟨⟨us, hus, hus'⟩, hrest⟩ := declaration_alone (c := e) (d := e') (he ▸ he' ▸ hf) (by rw [he]; exact hkind) (hdefects hn)
  have htrees : declTrees s = [.node kind us] := by
    rw [declTrees, hrun', hd', hparts', hus', he']
    rfl
  refine ⟨late, d, hrun.trans hd, ?_, hat _ hrest, kind, us, htrees⟩
  rw [hparts, hus, htrees, he]

end QueryStubs.Grammar
