import QueryStubs.Grammar.SequenceType
import QueryStubs.Proofs.Twin.Terms

/-!
# Scans and types side by side

A scan takes whatever comes between two brackets. In a declaration whose brackets are closed it ends before the semicolon, because it owes a
closing bracket for every bracket it has passed (`Pairing.Owes`).
-/

namespace QueryStubs.Grammar

open QueryStubs

variable {K : Pairing} {T : Rows K} {p q : Prop} {P : Outlook → Prop}

/-! ## Brackets that are open -/

/-- The brackets of some kinds that are opened in the declaration that is compared are closed in it. -/
def Pairing.Closes (K : Pairing) (opens closes : TokenKind → Bool) : Prop :=
  ¬ K.whole → ∀ run, run <:+ K.segment → run.countP (opens ·.kind) ≤ run.countP (closes ·.kind)

theorem Pairing.closes_parens : K.Closes (· = .parenOpen) (· = .parenClose) := fun hw => (K.segment_part hw).parens

theorem Pairing.closes_braces : K.Closes (· = .braceOpen) (· = .braceClose) := fun hw => (K.segment_part hw).braces

/-- Tokens of one of three kinds are counted kind by kind. -/
theorem countP_three {all : TokenKind → Bool} {x y z : TokenKind}
    (h : ∀ k, (if all k = true then 1 else 0) = (if decide (k = x) = true then 1 else 0) + (if decide (k = y) = true then 1 else 0) +
      if decide (k = z) = true then 1 else 0) (run : List Token) :
    run.countP (all ·.kind) = run.countP (·.kind = x) + run.countP (·.kind = y) + run.countP (·.kind = z) := by
  induction run with
  | nil => rfl
  | cons t ts ih =>
    have ht := h t.kind
    rw [List.countP_cons, List.countP_cons, List.countP_cons, List.countP_cons, ih, ht]
    omega

/-- An opening bracket has one of three shapes. -/
theorem countP_opening (run : List Token) : run.countP (·.kind.isOpening) =
    run.countP (·.kind = .parenOpen) + run.countP (·.kind = .braceOpen) + run.countP (·.kind = .bracketOpen) :=
  countP_three (fun k => by cases k <;> rfl) run

/-- So has a closing bracket. -/
theorem countP_closing (run : List Token) : run.countP (·.kind.isClosing) =
    run.countP (·.kind = .parenClose) + run.countP (·.kind = .braceClose) + run.countP (·.kind = .bracketClose) :=
  countP_three (fun k => by cases k <;> rfl) run

/-- Brackets of all shapes taken together are closed, because those of each shape are. -/
theorem Pairing.closes_all : K.Closes TokenKind.isOpening TokenKind.isClosing := by
  intro hw run hrun
  have hseg := K.segment_part hw
  rw [countP_opening, countP_closing]
  exact Nat.add_le_add (Nat.add_le_add (hseg.parens run hrun) (hseg.braces run hrun)) (hseg.brackets run hrun)

/-- In what is left of the declaration that is compared, `depth` brackets more are closed than opened, at least. -/
def Pairing.Owes (K : Pairing) (opens closes : TokenKind → Bool) (depth : Nat) (o : Outlook) : Prop :=
  K.whole ∨ ∃ run, o.ahead = run ++ K.rest₁ ∧ K.Left False run ∧
    depth + run.countP (opens ·.kind) ≤ run.countP (closes ·.kind)

namespace Pairing.Owes

variable {opens closes : TokenKind → Bool} {depth : Nat} {o : Outlook}

/-- Nothing is owed at first. -/
theorem start (h : K.Closes opens closes) {run : List Lexeme} (ho : o.ahead = run ++ K.rest₁) (hl : K.Left p run) :
    K.Owes opens closes 0 o := by
  by_cases hw : K.whole
  · exact .inl hw
  · obtain ⟨hsuffix, hne, -⟩ := hl.resolve_left hw
    refine .inr ⟨run, ho, .inr ⟨hsuffix, hne, nofun⟩, ?_⟩
    have hcount := h hw _ hsuffix
    rw [List.countP_map, List.countP_map] at hcount
    rw [Nat.zero_add]
    exact hcount

/-- As long as something is owed, what comes next is not the semicolon. -/
theorem reach (h : K.Owes opens closes depth o) (hd : 0 < depth) (hs : closes .semicolon = false) : K.Reach 1 o := by
  by_cases hw : K.whole
  · exact .inl hw
  · obtain ⟨run, ho, hl, hcount⟩ := h.resolve_left hw
    obtain ⟨inner, semicolon, rfl, hkind, hinner⟩ := hl.ends hw
    refine .inr fun j hj => ?_
    obtain rfl := Nat.lt_one_iff.mp hj
    cases inner with
    | nil =>
      rw [List.nil_append, List.countP_singleton, List.countP_singleton, hkind, hs] at hcount
      simp only [Bool.false_eq_true, if_false] at hcount
      omega
    | cons l inner => exact ⟨l, by rw [ho]; rfl, hinner l (List.mem_cons_self ..)⟩

/-- Behind a lexeme one more is owed if it opens a bracket, and one less if it closes one. -/
theorem step {l : Lexeme} {ls : List Lexeme} {tail tail' : List Token} {place place' : Nat} {depth' : Nat}
    (h : K.Owes opens closes depth ⟨l :: ls, tail, place⟩) (hr : K.Reach 1 ⟨l :: ls, tail, place⟩)
    (hd : depth' + (if closes l.kind = true then 1 else 0) ≤ depth + if opens l.kind = true then 1 else 0) :
    K.Owes opens closes depth' ⟨ls, tail', place'⟩ := by
  by_cases hw : K.whole
  · exact .inl hw
  · obtain ⟨run, ho, hl, hcount⟩ := h.resolve_left hw
    have hlt := hl.lt_length hw ho (hr.resolve_left hw)
    obtain ⟨hsuffix, hne, -⟩ := hl.resolve_left hw
    obtain ⟨k, run, rfl⟩ := List.exists_cons_of_ne_nil hne
    obtain ⟨rfl, rfl⟩ := List.cons.inj ho
    refine .inr ⟨run, rfl, .inr ⟨(List.suffix_cons _ _).trans hsuffix, ?_, nofun⟩, ?_⟩
    · rintro rfl
      exact absurd hlt (Nat.lt_irrefl _)
    · rw [List.countP_cons, List.countP_cons] at hcount
      omega

end Pairing.Owes

/-- What is left of the declaration that is compared owes nothing at first. -/
theorem Mirrors.of_closed {x : Rule α} {y : Rule β} {A : α → β → Outlook → Prop} {opens closes : TokenKind → Bool}
    (hc : K.Closes opens closes) (h : Mirrors T p q (fun o => K.Owes opens closes 0 o ∧ P o) x y A) : Mirrors T p q P x y A :=
  .of_left (h.of_imp fun _ ⟨hp, _, ho, hl⟩ => ⟨.start hc ho hl, hp⟩)

/-! ## Balanced brackets -/

/-- Where a scan stands: how many brackets are open, where the first of them was opened, and that they are still to be closed. -/
structure Pairing.Scans (K : Pairing) (openKind closeKind : TokenKind) (opening opening' : Span) (depth depth' : Nat) (o : Outlook) :
    Prop where
  same : K.same opening opening'
  depths : depth = depth'
  inside : 0 < depth
  owes : K.Owes (· = openKind) (· = closeKind) depth o

/-- One lexeme of a run between two brackets. -/
theorem balancedStep_mirrors {openKind closeKind : TokenKind} {unclosed : DiagnosticKind} (note : String) (opening opening' : Span)
    (hne : openKind ≠ closeKind) (hc : closeKind ≠ .semicolon) (hu : unclosed.isStructural = true) (depth depth' : Nat) :
    Mirrors T p p (K.Scans openKind closeKind opening opening' depth depth')
      (balancedStep openKind closeKind unclosed note opening depth) (balancedStep openKind closeKind unclosed note opening' depth')
      fun r s o => r.1 = s.1 ∧ if r.1 = true then K.Scans openKind closeKind opening opening' r.2 s.2 o else r.2 = s.2 := by
  refine .look nextKind_mirrors nextKind_looks.keeps fun kind => .test atEnd_mirrors atEnd_looks.keeps ?_ ?_
  · exact (reportUnclosed_mirrors note hu fun o h => ⟨h.2, h.1.1.same⟩).bind fun _ _ => .pure fun o h => ⟨rfl, h.1.1.depths⟩
  -- The lexeme is taken in any case; what is owed behind it depends on its kind.
  have htake : ∀ after : Nat,
      (0 < depth → ∀ k, kind = some k → after + (if k = closeKind then 1 else 0) ≤ depth + if k = openKind then 1 else 0) →
        Mirrors T p p (fun o => (K.Scans openKind closeKind opening opening' depth depth' o ∧ kind = o.ahead[0]?.map (·.kind)) ∧
          ¬ o.ahead = []) take take
          fun _ _ o => (K.same opening opening' ∧ depth = depth' ∧ 0 < depth) ∧ K.Owes (· = openKind) (· = closeKind) after o := by
    intro after hafter
    have hreach : ∀ o : Outlook, ((K.Scans openKind closeKind opening opening' depth depth' o ∧ kind = o.ahead[0]?.map (·.kind)) ∧
        ¬ o.ahead = []) → K.Reach 1 o :=
      fun o h => h.1.1.owes.reach h.1.1.inside (decide_eq_false fun he => hc he.symm)
    refine advance_mirrors (fun _ => rfl) hreach fun l ls tail place h => ?_
    obtain ⟨⟨hscan, hk⟩, -⟩ := id h
    refine ⟨⟨hscan.same, hscan.depths, hscan.inside⟩, hscan.owes.step (hreach _ h) ?_⟩
    simpa using hafter hscan.inside l.kind hk
  by_cases ho : kind = some openKind
  · refine (htake (depth + 1) fun _ k hk => ?_).bind fun _ _ => ?_
    · cases hk.symm.trans ho
      simp [hne]
    · rw [if_pos ho, if_pos ho]
      exact .pure fun o h => ⟨rfl, h.1.1, by rw [h.1.2.1], Nat.succ_pos _, h.2⟩
  by_cases hcl : kind = some closeKind
  · refine (htake (depth - 1) fun hpos k hk => ?_).bind fun _ _ => ?_
    · cases hk.symm.trans hcl
      simp only [hne.symm, if_true, if_false]
      omega
    · rw [if_neg ho, if_neg ho, if_pos hcl, if_pos hcl]
      refine .pure fun o ⟨⟨hs, hd, _⟩, howes⟩ => ⟨by rw [hd], ?_⟩
      split
      · next h1 => exact ⟨hs, by rw [hd], Nat.sub_pos_of_lt (of_decide_eq_true h1), howes⟩
      · rw [hd]
  · refine (htake depth fun _ k hk => ?_).bind fun _ _ => ?_
    · have ho' : k ≠ openKind := fun he => ho (hk.trans (congrArg some he))
      have hc' : k ≠ closeKind := fun he => hcl (hk.trans (congrArg some he))
      simp [ho', hc']
    · rw [if_neg ho, if_neg ho, if_neg hcl, if_neg hcl]
      exact .pure fun o h => ⟨rfl, h.1.1, h.1.2.1, h.1.2.2, h.2⟩

/-- The range of a bracket that comes next, which is taken then. -/
theorem opening_mirrors {openKind : TokenKind} {opens closes : TokenKind → Bool} (hos : openKind ≠ .semicolon)
    (ho : opens openKind = true) (hc : closes openKind = false) (hcloses : K.Closes opens closes) {f g : Span → Rule α}
    {A : α → α → Outlook → Prop}
    (h : ∀ s t, Mirrors T p p (fun o => K.same s t ∧ K.Owes opens closes 1 o) (f s) (g t) A) :
    Mirrors T p p (fun o => o.KindAt 0 openKind) (nextSpan >>= fun s => take >>= fun _ => f s)
      (nextSpan >>= fun t => take >>= fun _ => g t) A := by
  refine .of_closed hcloses ((nextSpan_mirrors fun o h => ?_).bind fun s t => ?_)
  · obtain ⟨l, ls, hl, -⟩ := h.2.cons
    exact hl ▸ List.cons_ne_nil _ _
  refine Mirrors.bind (q := p) (advance_mirrors (fun _ => rfl) (fun o h => h.2.2.reach_one hos) fun l ls tail place h => ?_)
    fun _ _ => h s t
  obtain ⟨hs, howes, hk⟩ := h
  have hk' : l.kind = openKind := Option.some.inj hk
  exact ⟨hs, howes.step (hk.reach_one hos) (by simp [hk', ho, hc])⟩

/-- A run between two brackets. -/
theorem balanced_mirrors {openKind closeKind : TokenKind} {unclosed : DiagnosticKind} (note : String) (hne : openKind ≠ closeKind)
    (hos : openKind ≠ .semicolon) (hc : closeKind ≠ .semicolon) (hu : unclosed.isStructural = true)
    (hcloses : K.Closes (· = openKind) (· = closeKind)) :
    Mirrors T p p (fun o => o.KindAt 0 openKind) (balanced openKind closeKind unclosed note)
      (balanced openKind closeKind unclosed note) Same := by
  refine opening_mirrors hos (decide_eq_true rfl) (decide_eq_false hne) hcloses fun opening opening' => ?_
  have hloop := repeatRule_mirrors (I := K.Scans openKind closeKind opening opening') (Q := fun depth depth' _ => depth = depth')
    (balancedStep_mirrors (T := T) (p := p) note opening opening' hne hc hu) 1 1
  refine (hloop.of_imp fun o h => ⟨h.1, rfl, Nat.one_pos, h.2⟩).bind fun depth depth' => .pure fun o h => ?_
  rw [Same, h]

/-! ## Item types and what follows them -/

/-- Placed trivia stand in front of nothing any more. -/
theorem lead_placeTrivia {c : Cursor} {l : Lexeme} {ls : List Lexeme} (h : c.placeTrivia.ahead = l :: ls) : l.lead = [] := by
  unfold Cursor.placeTrivia at h
  cases hc : c.ahead with
  | nil => simp [hc] at h
  | cons k ks =>
    simp only [hc] at h
    obtain ⟨rfl, -⟩ := List.cons.inj h
    rfl

/-- A lexeme in a node of its own has its trivia in front of the node. -/
theorem lexemeNode_run {kind : NodeKind} {c : Cursor} {l : Lexeme} {ls : List Lexeme} (h : c.placeTrivia.ahead = l :: ls) :
    (node kind take c).2.toReading =
      { c.placeTrivia.toReading with
        parts := c.placeTrivia.parts ++ [.node kind [.leaf l.token]]
        ahead := ls
        reached := l.span.stop } := by
  have hrun : (node kind take c).2.toReading = { (Cursor.advance id (c.placeTrivia.startNode kind)).toReading with
      parts := c.placeTrivia.parts ++ [.node kind (Cursor.advance id (c.placeTrivia.startNode kind)).parts] } := rfl
  rw [hrun]
  simp [Cursor.advance, h, lead_placeTrivia h]

/-- A mark is the same on both sides to the letter, because there is nothing but its lexeme in its node. -/
theorem markNode_mirrors : Mirrors T p p (fun o => ∃ kind, o.KindAt 0 kind ∧ kind ≠ .semicolon) (node .occurrence take)
    (node .occurrence take) fun _ _ => Anywhere where
  keeping := node_keeping (advance_keeping fun _ => rfl)
  agree c d ht hp hn := by
    have hplace : Mirrors T p p (fun o => ∃ kind, o.KindAt 0 kind ∧ kind ≠ .semicolon) placeTrivia placeTrivia fun _ _ o =>
        ∃ kind, o.KindAt 0 kind ∧ kind ≠ .semicolon := placeTrivia_mirrors fun o ⟨kind, hk, hne⟩ => ⟨kind, hk.placed, hne⟩
    have hkeep : c.placeTrivia.defects = [] := advance_keeping (fun _ => rfl) (c.placeTrivia.startNode .occurrence) hn
    obtain ⟨⟨kind, hkind, hne⟩, hplaced⟩ := hplace.agree c d ht hp hkeep
    change T.Twin p c.placeTrivia.toReading d.placeTrivia.toReading at hplaced
    obtain ⟨l, ls, hc, -⟩ := hkind.cons
    change c.placeTrivia.ahead = l :: ls at hc
    obtain ⟨k, ks, hd, hpair, hahead⟩ := hplaced.uncons hc (hkind.reach_one hne)
    rw [lexemeNode_run hc, lexemeNode_run hd]
    refine ⟨trivial, Rows.Twin.weaken (p := True) ⟨hahead, ?_, hplaced.modulePrefix, hplaced.alone, fun hw => ?_⟩ fun _ => trivial⟩
    · rw [hpair.token]
      exact T.rows.append hplaced.parts (T.mark _)
    · have hf := hplaced.followed hw
      exact ⟨hf.tail, hf.limit₁, hf.limit₂, hf.reports, hf.lastReport, fun _ => ⟨_, _, hpair.span, rfl, rfl⟩⟩

theorem occurrenceMark_mirrors : Mirrors T p p P occurrenceMark occurrenceMark fun _ _ => Anywhere := by
  refine .look nextKind_mirrors nextKind_looks.keeps fun kind => ?_
  cases hk : kind.any TokenKind.isOccurrence with
  | false =>
    rw [if_neg nofun]
    exact .pure fun _ _ => trivial
  | true =>
    rw [if_pos rfl]
    obtain ⟨k, rfl⟩ := Option.isSome_iff_exists.mp (Option.isSome_of_any hk)
    refine markNode_mirrors.of_imp fun o h => ⟨k, h.2.symm, ?_⟩
    rintro rfl
    cases hk

/-- A word and an empty pair of parentheses. -/
theorem emptyParens_mirrors (kind : NodeKind) (he : kind ≠ .error) (hm : kind ≠ .occurrence) :
    Mirrors T p p (fun o => o.KindAt 0 .name) (emptyParens kind) (emptyParens kind) Same := by
  refine node_mirrors (R := fun o => o.KindAt 0 .name) ?_ he hm fun o h => h.placed
  refine (takeKeyword_mirrors fun o h => h.reach_one nofun).bind fun _ _ => ?_
  refine .look (sees_mirrors .parenOpen) (sees_looks .parenOpen).keeps fun b => (demand_mirrors b b .unexpectedKind).bind fun _ _ => ?_
  refine (take_mirrors fun o h => (h.2.2.mp h.1).reach_one nofun).bind fun _ _ => expect_mirrors .parenClose _ nofun

/-- A keyword comes next and an opening parenthesis after it. -/
def Outlook.Parens (o : Outlook) : Prop := o.KindAt 0 .name ∧ o.KindAt 1 .parenOpen

theorem kindTest_mirrors : Mirrors T p p Outlook.Parens kindTest kindTest Same := by
  refine node_mirrors (R := Outlook.Parens) ?_ (by decide) (by decide) fun o h => ⟨h.1.placed, h.2.placed⟩
  refine Mirrors.bind (q := p) (advance_mirrors (fun _ => rfl) (fun o h => h.1.reach_one nofun) fun l ls tail place h => ?_) fun _ _ =>
    balanced_mirrors _ nofun nofun nofun rfl K.closes_parens
  exact h.2

/-- A test and the mark after it. -/
theorem marked_mirrors {x : Rule Bool} (hx : Mirrors T p p P x x Same) :
    Mirrors T p p P (x >>= fun b => if b = true then (do occurrenceMark; return true) else pure false)
      (x >>= fun b => if b = true then (do occurrenceMark; return true) else pure false) Same :=
  hx.whenDone (occurrenceMark_mirrors.bind fun _ _ => .done true)

theorem testType_mirrors (name : String) : Mirrors T p p Outlook.Parens (testType name) (testType name) Same := by
  unfold testType
  split
  · exact (emptyParens_mirrors .emptySequence nofun nofun).of_imp fun _ h => h.1
  split
  · exact marked_mirrors ((emptyParens_mirrors .anyItem nofun nofun).of_imp fun _ h => h.1)
  split
  · exact marked_mirrors kindTest_mirrors
  · exact (report_mirrors (by decide)).bind fun _ _ => .done false

theorem atomicType_mirrors : Mirrors T p p P atomicType atomicType Same :=
  (node_mirrors (R := Anywhere) qname_mirrors (by decide) (by decide) fun _ _ => trivial).bind fun _ _ =>
    occurrenceMark_mirrors.bind fun _ _ => .done true

theorem itemType_mirrors : Mirrors T p p P itemType itemType Same := by
  refine .test (sees_mirrors .name) (sees_looks .name).keeps ?_ ((report_mirrors (by decide)).bind fun _ _ => .done false)
  refine .look nextText_mirrors nextText_looks.keeps fun name => ?_
  refine .test (seesTouching_mirrors 1 .colon (fun o h => h.1.2.reach_one nofun) (.inl rfl)) (seesTouching_looks 1 .colon).keeps
    atomicType_mirrors ?_
  refine .test (seesAt_mirrors 1 .parenOpen fun o h => h.1.1.2.reach_one nofun) (seesAt_looks 1 .parenOpen).keeps ?_ atomicType_mirrors
  exact (testType_mirrors name).of_imp fun o h => ⟨h.1.1.1.2, h.2⟩

theorem sequenceType_mirrors : Mirrors T p p P sequenceType sequenceType Same :=
  nodeWithLead_mirrors (T.node nofun nofun) itemType_mirrors

theorem typeDecl_mirrors : Mirrors T p p (fun o => o.KindAt 0 .name) typeDecl typeDecl Same := by
  refine node_mirrors (R := fun o => o.KindAt 0 .name) ?_ nofun nofun fun o h => h.placed
  exact (takeKeyword_mirrors fun o h => h.reach_one nofun).bind fun _ _ => sequenceType_mirrors

theorem optionalType_mirrors : Mirrors T p p P optionalType optionalType Same :=
  .test (seesWord_mirrors "as") (seesWordAt_looks 0 "as").keeps (typeDecl_mirrors.of_imp fun _ h => h.2.kindAt) (.done true)

end QueryStubs.Grammar
