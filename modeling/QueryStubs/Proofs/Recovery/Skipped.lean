import QueryStubs.Proofs.Lenient.Functions
import QueryStubs.Proofs.Segments.Alone

/-!
# What is skipped

A declaration takes tokens that no rule for it asked for in two ways. If it fails, what is left of it is skipped into an `error` node, and
no word of these tokens starts a declaration (`skipToRecovery_skips`). If it has no known kind, the word behind its first one is taken too,
whatever it is (`unknownDecl_takes`). All other `error` nodes are such nodes: the rules for known declarations make none
(`knownDecl_adds`).
-/

namespace QueryStubs

open Grammar
open QueryStubs.Tree (leavesOf constructs)

/-- No declaration starts among the tokens. -/
def Token.Idle (ts : List Token) : Prop := ∀ t ∈ ts, t.startsDecl = false

namespace Token.Idle

variable {ts us : List Token}

/-- No declaration starts where there are no tokens. -/
theorem nil : Idle [] := List.forall_mem_nil _

/-- If none starts in either of two rows of tokens, none does in both together. -/
theorem append (h : Idle ts) (h' : Idle us) : Idle (ts ++ us) := List.forall_mem_append.mpr ⟨h, h'⟩

/-- None starts where there are no names. -/
theorem of_kind (h : ∀ t ∈ ts, t.kind ≠ .name) : Idle ts := fun t ht => by simp [startsDecl, isWord, h t ht]

/-- Nor among trivia. -/
theorem of_trivia (h : AllTrivia ts) : Idle ts := of_kind fun t ht hk => by
  have htrivia := h t ht
  rw [isTrivia, hk] at htrivia
  cases htrivia

end Token.Idle

namespace Grammar

/-! ## Rules that make no node for what cannot be used -/

/-- A loop adds what its rounds add. -/
theorem Adds.loop {C : NodeKind × List Tree → Prop} {step : σ → Rule (Bool × σ)} (h : ∀ a, Adds (step a) C) (a : σ) :
    Adds (repeatRule step a) C := by
  intro c
  fun_induction repeatRule step a c with
  | case1 a c b d hs =>
    obtain ⟨ts, hts, hall⟩ := h a c
    rw [hs] at hts
    exact ⟨ts, hts, hall⟩
  | case2 a c b d hs _ ih =>
    obtain ⟨ts, hts, hall⟩ := h a c
    obtain ⟨us, hus, hall'⟩ := ih
    rw [hs] at hts
    refine ⟨ts ++ us, by rw [hus, hts, List.append_assoc], ?_⟩
    rw [Tree.constructs_append]
    exact List.forall_mem_append.mpr ⟨hall, hall'⟩
  | case3 a c b d hs _ =>
    obtain ⟨ts, hts, hall⟩ := h a c
    rw [hs] at hts
    refine ⟨ts, ?_, hall⟩
    rw [← hts]
    exact congrArg Reading.parts (demand_keeps false .stuck d).1

/-- A construct that is not there for what could not be used. -/
def Unspoiled (x : NodeKind × List Tree) : Prop := x.1 ≠ .error

/-- What is missing is reported and left out. -/
theorem missing_adds (kind : DiagnosticKind) (detail : Option String) : Adds (reportNext kind detail >>= fun _ => pure false) Unspoiled :=
  .bind (.reportNext kind detail) fun _ => .pure false

/-- Accepting one of some words makes no `error` node. -/
theorem acceptWordOf_adds (words : List String) : Adds (acceptWordOf words) Unspoiled := by
  induction words with
  | nil => exact .pure false
  | cons word words ih => exact .bind (.of_keeps (seesWord_head word)) fun _ => .ite (.bind .takeKeyword fun _ => .pure true) ih

/-- Neither does expecting one. -/
theorem expectWordOf_adds (words : List String) : Adds (expectWordOf words) Unspoiled :=
  .bind (acceptWordOf_adds words) fun _ => .ite (.pure true) (missing_adds _ _)

/-- Neither does expecting a lexeme. -/
theorem expect_adds (kind : TokenKind) (what : String) : Adds (expect kind what) Unspoiled :=
  .bind (.accept kind) fun _ => .ite (.pure true) (missing_adds _ _)

/-- Neither does expecting a name without a prefix. -/
theorem expectNCName_adds (what : String) : Adds (expectNCName what) Unspoiled := by
  refine .bind (.of_keeps (sees_head .name)) fun _ => .ite ?_ (missing_adds _ _)
  exact .bind (.of_keeps (seesTouching_looks 1 .colon).keeps) fun _ => .ite (missing_adds _ _) (.bind .take fun _ => .pure true)

/-- A string literal makes no `error` node. -/
theorem stringLiteral_adds (what : String) : Adds (stringLiteral what) Unspoiled :=
  .bind (.of_keeps nextKind_looks.keeps) fun _ =>
    .ite (.bind (.node .str _ fun _ => by simp [Unspoiled]) fun _ => .pure true) (missing_adds _ _)

/-- Rules that make no `error` node make none one after the other. -/
theorem inOrder_adds {rules : List (Rule Bool)} (h : ∀ r ∈ rules, Adds r Unspoiled) : Adds (inOrder rules) Unspoiled := by
  induction rules with
  | nil => exact .pure true
  | cons r rules ih =>
    obtain ⟨hr, hrules⟩ := List.forall_mem_cons.mp h
    exact .bind hr fun _ => .ite (ih hrules) (.pure false)

/-- A prefix and its sign make no `error` node. -/
theorem prefixBinding_adds : Adds prefixBinding Unspoiled :=
  inOrder_adds (by simpa using ⟨expectNCName_adds _, expect_adds _ _⟩)

/-- The locations of an import make no `error` node. -/
theorem locationHints_adds : Adds locationHints Unspoiled := by
  have hstep : ∀ b, Adds (locationStep b) Unspoiled := fun _ =>
    .bind (.accept .comma) fun _ => .ite (.bind (stringLiteral_adds _) fun _ => .ite (.pure _) (.pure _)) (.pure _)
  refine .bind (.of_keeps (seesWord_head "at")) fun _ => .ite (.bind .takeKeyword fun _ => ?_) (.pure true)
  exact .bind (stringLiteral_adds _) fun _ => .ite (.loop hstep true) (.pure false)

/-- What a module import binds makes no `error` node. -/
theorem moduleTarget_adds : Adds moduleTarget Unspoiled :=
  .bind (.of_keeps (seesWord_head "namespace")) fun _ => .ite (.bind .takeKeyword fun _ => prefixBinding_adds) (.pure true)

/-- What a schema import binds makes no `error` node. -/
theorem schemaTarget_adds : Adds schemaTarget Unspoiled := by
  refine .bind (.of_keeps (seesWord_head "namespace")) fun _ => .ite (.bind .takeKeyword fun _ => prefixBinding_adds) ?_
  refine .bind (.of_keeps (seesWord_head "default")) fun _ => .ite (.bind .takeKeyword fun _ => ?_) (.pure true)
  exact inOrder_adds (by simpa using ⟨expectWordOf_adds _, expectWordOf_adds _⟩)

/-- What follows the name of a variable makes no `error` node. -/
theorem varTail_adds : Adds varTail Unspoiled := by
  have hvalue : Adds varValue Unspoiled := .node .varValue _ fun _ => by simp [Unspoiled]
  have hsees : Adds (sees .colonEquals) Unspoiled := .of_keeps (sees_head .colonEquals)
  refine .bind hsees fun _ => .ite hvalue (.bind (.of_keeps (seesWord_head "external")) fun _ => .ite ?_ (missing_adds _ _))
  exact .bind .takeKeyword fun _ => .bind hsees fun _ => .ite hvalue (.pure true)

/-- A variable makes no `error` node. -/
theorem varDecl_adds : Adds varDecl Unspoiled := by
  refine .bind (takeKeywords_adds 2) fun _ => .bind (.accept .dollar) fun _ => .ite ?_ (missing_adds _ _)
  refine .bind (expectQName_adds _ fun _ => by simp [Unspoiled]) fun _ => .ite ?_ (.pure false)
  exact .bind (optionalType_adds fun _ => by simp [Unspoiled]) fun _ => .ite varTail_adds (.pure false)

/-- A function makes no `error` node. -/
theorem functionDecl_adds : Adds functionDecl Unspoiled := by
  have hbody : Adds functionBody Unspoiled := functionBody_adds (fun _ => by simp [Unspoiled]) fun _ => by simp [Unspoiled]
  refine .bind (takeKeywords_adds 2) fun _ => .bind checkNamespace_adds fun _ => ?_
  refine .bind (expectQName_adds _ fun _ => by simp [Unspoiled]) fun _ => .ite ?_ (.pure false)
  refine .bind (.of_keeps (sees_head .parenOpen)) fun _ => .ite ?_ (missing_adds _ _)
  refine .bind (.node .paramList _ fun _ => by simp [Unspoiled]) fun _ => .ite ?_ (.pure false)
  exact .bind (optionalType_adds fun _ => by simp [Unspoiled]) fun _ => .ite hbody (.pure false)

/-- The rule for a known declaration makes no such node. -/
theorem knownDecl_adds {kind : NodeKind} (hk : kind.isSetter = true ∨ kind.isBodyDecl = true) : Adds (declBody kind) Unspoiled := by
  have hwords : ∀ (n : Nat) {x : Rule Bool}, Adds x Unspoiled → Adds (do takeKeywords n; x) Unspoiled :=
    fun n _ hx => .bind (takeKeywords_adds n) fun _ => hx
  have hliteral := stringLiteral_adds
  match kind, hk with
  | .namespaceDecl, _ => exact hwords 2 (inOrder_adds (by simpa using ⟨prefixBinding_adds, hliteral _⟩))
  | .boundarySpaceDecl, _ => exact hwords 2 (expectWordOf_adds _)
  | .defaultNamespaceDecl, _ => exact hwords 3 (inOrder_adds (by simpa using ⟨expectWordOf_adds _, hliteral _⟩))
  | .defaultCollationDecl, _ => exact hwords 3 (hliteral _)
  | .emptyOrderDecl, _ => exact hwords 3 (inOrder_adds (by simpa using ⟨expectWordOf_adds _, expectWordOf_adds _⟩))
  | .baseUriDecl, _ => exact hwords 2 (hliteral _)
  | .constructionDecl, _ => exact hwords 2 (expectWordOf_adds _)
  | .orderingModeDecl, _ => exact hwords 2 (expectWordOf_adds _)
  | .copyNamespacesDecl, _ =>
    exact hwords 2 (inOrder_adds (by simpa using ⟨expectWordOf_adds _, expect_adds _ _, expectWordOf_adds _⟩))
  | .schemaImport, _ => exact hwords 2 (inOrder_adds (by simpa using ⟨schemaTarget_adds, hliteral _, locationHints_adds⟩))
  | .moduleImport, _ => exact hwords 2 (inOrder_adds (by simpa using ⟨moduleTarget_adds, hliteral _, locationHints_adds⟩))
  | .varDecl, _ => exact varDecl_adds
  | .functionDecl, _ => exact functionDecl_adds
  | .optionDecl, _ =>
    exact hwords 2 (.bind (expectQName_adds _ fun _ => by simp [Unspoiled]) fun _ => .ite (hliteral _) (.pure false))

/-! ## Skipping -/

/-- From one reading to another, only tokens were taken in which no declaration starts. -/
structure Skips (s s' : Reading) : Prop where
  parts : ∃ ts, s'.parts = s.parts ++ ts ∧ Token.Idle (leavesOf ts)
  lexical : s'.outlook.Lexical

namespace Skips

variable {s s' s'' : Reading}

/-- Where neither the parts nor the outlook change nothing is skipped. -/
theorem of_eq (hp : s'.parts = s.parts) (ho : s'.outlook = s.outlook) (hl : s.outlook.Lexical) : Skips s s' :=
  ⟨⟨[], by rw [hp, List.append_nil], .nil⟩, ho ▸ hl⟩

/-- What is skipped one after the other is skipped together. -/
theorem trans (h : Skips s s') (h' : Skips s' s'') : Skips s s'' := by
  obtain ⟨ts, hts, hidle⟩ := h.parts
  obtain ⟨us, hus, hidle'⟩ := h'.parts
  refine ⟨⟨ts ++ us, by rw [hus, hts, List.append_assoc], ?_⟩, h'.lexical⟩
  rw [Tree.leavesOf_append]
  exact hidle.append hidle'

/-- Taking a lexeme at which no declaration starts. -/
theorem past {l : Lexeme} {ls : List Lexeme} (ha : s.ahead = l :: ls) (hl : s.outlook.Lexical) (ht : l.token.startsDecl = false) :
    Skips s (s.past (leavesFor l.tokens) [l] ls) := by
  rw [Reading.outlook, ha] at hl
  refine ⟨⟨_, rfl, ?_⟩, hl.tail_cons⟩
  have hleaves : leavesOf (leavesFor l.tokens) = l.lead ++ [l.token] := Tree.leavesOf_map_leaf l.tokens
  rw [hleaves]
  exact (Token.Idle.of_trivia (hl.leads l (List.mem_cons_self ..))).append (List.forall_mem_singleton.mpr ht)

end Skips

/-- Skipping stops where nothing is left and where recovery is possible; everywhere else a lexeme is skipped at which no declaration
starts. -/
theorem skipStep_skips {c : Cursor} (hl : c.outlook.Lexical) :
    ∃ b d, skipStep atRecovery () c = ((b, ()), d) ∧ Skips c.toReading d.toReading ∧
      if b = true then d.ahead.length < c.ahead.length else d.ahead = [] ∨ d.outlook.Stops := by
  have hstop : ∀ e : Cursor, e.toReading = c.toReading → (c.ahead = [] ∨ c.outlook.Stops) →
      ∃ b d, (pure (false, ()) : Rule (Bool × Unit)) e = ((b, ()), d) ∧ Skips c.toReading d.toReading ∧
        if b = true then d.ahead.length < c.ahead.length else d.ahead = [] ∨ d.outlook.Stops := fun e he hs =>
    ⟨false, e, rfl, .of_eq (congrArg Reading.parts he) (congrArg Reading.outlook he) hl, he ▸ hs⟩
  obtain ⟨empty, d, hrun, hd, hempty⟩ := atEnd_looks.keeps.peel (c := c) rfl fun b => if b = true then pure (false, ()) else
    atRecovery >>= fun b => if b = true then pure (false, ()) else take >>= fun _ => lookPast >>= fun _ => (pure (true, ()) : Rule (Bool × Unit))
  have hrun : skipStep atRecovery () c = _ := hrun
  rw [hrun]
  cases empty with
  | true => exact hstop d hd (.inl (hempty.mp rfl))
  | false =>
    obtain ⟨stop, e, hrun', he, hstops⟩ := atRecovery_keeps.peel hd fun b => if b = true then pure (false, ()) else
      take >>= fun _ => lookPast >>= fun _ => (pure (true, ()) : Rule (Bool × Unit))
    have hrun' : (if false = true then pure (false, ()) else _ : Rule (Bool × Unit)) d = _ := hrun'
    rw [hrun']
    cases stop with
    | true => exact hstop e he (.inr (hstops.mp rfl))
    | false =>
      cases ha : c.ahead with
      | nil => exact nomatch hempty.mpr ha
      | cons l ls =>
        have hword : l.token.startsDecl = false := by
          rw [← @declAhead_isSome l ls, ← ha]
          exact Bool.eq_false_iff.mpr fun h => nomatch hstops.mpr (.inr h)
        have hd : (take e).2.toReading = _ := take_past he ha
        refine ⟨true, (take e).2.look, rfl, ?_, ?_⟩
        · exact (show (take e).2.look.toReading = _ from hd) ▸ .past ha hl hword
        · rw [if_pos rfl, show (take e).2.look.ahead = ls from congrArg Reading.ahead hd]
          exact Nat.lt_succ_self _

/-- So does the loop. -/
theorem skipLoop_skips {c : Cursor} (hl : c.outlook.Lexical) :
    Skips c.toReading (repeatRule (skipStep atRecovery) () c).2.toReading ∧
      ((repeatRule (skipStep atRecovery) () c).2.ahead = [] ∨ (repeatRule (skipStep atRecovery) () c).2.outlook.Stops) := by
  fun_induction repeatRule (skipStep atRecovery) () c with
  | case1 a c b d hs =>
    obtain ⟨_, _, hstep, hskips, hend⟩ := skipStep_skips hl
    cases hs.symm.trans hstep
    exact ⟨hskips, hend⟩
  | case2 a c b d hs _ ih =>
    obtain ⟨_, _, hstep, hskips, -⟩ := skipStep_skips hl
    cases hs.symm.trans hstep
    obtain ⟨hrest, hend⟩ := ih hskips.lexical
    exact ⟨hskips.trans hrest, hend⟩
  | case3 a c b d hs hlt =>
    obtain ⟨_, _, hstep, -, hless⟩ := skipStep_skips hl
    cases hs.symm.trans hstep
    exact absurd hless hlt

/-- What is skipped is put into a node, and no declaration starts in it. -/
theorem skipToRecovery_skips {c : Cursor} (hl : c.outlook.Lexical) :
    Skips c.toReading (skipUntil atRecovery c).2.toReading ∧
      ((skipUntil atRecovery c).2.ahead = [] ∨ (skipUntil atRecovery c).2.outlook.Stops) := by
  obtain ⟨empty, d, hrun, hd, hempty⟩ := atEnd_looks.keeps.peel (c := c) rfl fun b => if b = true then pure () else
    atRecovery >>= fun b => if b = true then pure () else node .error (repeatRule (skipStep atRecovery) ())
  have hrun : skipUntil atRecovery c = _ := hrun
  rw [hrun]
  cases empty with
  | true => exact ⟨.of_eq (congrArg Reading.parts hd) (congrArg Reading.outlook hd) hl, .inl (hd ▸ hempty.mp rfl)⟩
  | false =>
    obtain ⟨stop, e, hrun', he, hstops⟩ := atRecovery_keeps.peel hd fun b => if b = true then pure () else
      node .error (repeatRule (skipStep atRecovery) ())
    have hrun' : (if false = true then pure () else _ : Rule Unit) d = _ := hrun'
    rw [hrun']
    cases stop with
    | true => exact ⟨.of_eq (congrArg Reading.parts he) (congrArg Reading.outlook he) hl, .inr (he ▸ hstops.mp rfl)⟩
    | false =>
      have hplaced : (e.placeTrivia.startNode .error).outlook = c.outlook.placed :=
        (outlook_placeTrivia e).trans (congrArg (fun s => Outlook.placed (Reading.outlook s)) he)
      obtain ⟨⟨⟨ts, hts, hidle⟩, hlexical⟩, hend⟩ := skipLoop_skips (c := e.placeTrivia.startNode .error) (hplaced ▸ hl.placed)
      refine ⟨⟨⟨leavesFor c.outlook.trivia ++ [.node .error ts], ?_, ?_⟩, hlexical⟩, hend⟩
      · have hinside : (repeatRule (skipStep atRecovery) () (e.placeTrivia.startNode .error)).2.parts = ts := hts
        rw [← List.append_assoc, ← he, ← parts_placeTrivia, ← hinside]
        rfl
      · have hleaves : leavesOf (leavesFor c.outlook.trivia) = c.outlook.trivia := Tree.leavesOf_map_leaf _
        rw [Tree.leavesOf_append, hleaves]
        exact (Token.Idle.of_trivia hl.trivia).append (by simpa [Tree.leavesOf] using hidle)

/-- A report skips nothing. -/
theorem report_skips (kind : DiagnosticKind) (detail : String) {c : Cursor} (hl : c.outlook.Lexical) :
    Skips c.toReading (report kind detail c).2.toReading ∧ (report kind detail c).2.outlook = c.outlook := by
  have hreport : (report kind detail c).2 = c.look.addReport c.nextSpan.start ⟨kind, c.nextSpan, some detail, []⟩ := rfl
  obtain ⟨-, hparts, -⟩ := addReport_fields c.look c.nextSpan.start ⟨kind, c.nextSpan, some detail, []⟩
  have ho := (addReport_frame c.look c.nextSpan.start ⟨kind, c.nextSpan, some detail, []⟩).1
  rw [hreport]
  exact ⟨.of_eq hparts ho hl, ho⟩

/-- A declaration up to where its semicolon is expected: behind the rule for it, tokens are skipped in which no declaration starts. -/
theorem toSemicolon_skips {r : Rule Bool} {c : Cursor} (hl : (r c).2.outlook.Lexical) :
    Skips (r c).2.toReading (toSemicolon r c).2.toReading ∧
      ((toSemicolon r c).2.ahead = [] ∨ (toSemicolon r c).2.outlook.Stops) := by
  have hrun : toSemicolon r c = (if (r c).1 = true then sees .semicolon >>= fun b => if b = true then pure () else
    report .expectedToken "`;` after declaration" >>= fun _ => skipUntil atRecovery else skipUntil atRecovery) (r c).2 := rfl
  rw [hrun]
  generalize (r c).1 = ok, (r c).2 = d at hl
  cases ok with
  | false => exact skipToRecovery_skips hl
  | true =>
    obtain ⟨semicolon, e, hrun', he, hsees⟩ := (sees_looks .semicolon).keeps.peel (c := d) rfl fun b => if b = true then pure () else
      report .expectedToken "`;` after declaration" >>= fun _ => skipUntil atRecovery
    rw [if_pos rfl, hrun']
    have hsame : Skips d.toReading e.toReading := .of_eq (congrArg Reading.parts he) (congrArg Reading.outlook he) hl
    cases semicolon with
    | true => exact ⟨hsame, .inr (he ▸ .inl (hsees.mp rfl))⟩
    | false =>
      have hreported := hsame.trans (report_skips .expectedToken "`;` after declaration" hsame.lexical).1
      obtain ⟨hrest, hend⟩ := skipToRecovery_skips hreported.lexical
      exact ⟨hreported.trans hrest, hend⟩

/-- How a declaration ends: with its semicolon, or where nothing is left or the next declaration starts. -/
theorem throughSemicolon_skips {r : Rule Bool} {c : Cursor} (hl : (r c).2.outlook.Lexical) :
    Skips (r c).2.toReading (throughSemicolon r c).2.toReading ∧
      ((∃ us t, (throughSemicolon r c).2.parts = us ++ [.leaf t] ∧ t.kind = .semicolon) ∨
        (throughSemicolon r c).2.ahead = [] ∨ (declAhead (throughSemicolon r c).2.ahead).isSome = true) := by
  obtain ⟨hskips, hend⟩ := toSemicolon_skips hl
  have hrun : throughSemicolon r c = accept .semicolon (toSemicolon r c).2 := rfl
  rw [hrun]
  generalize (toSemicolon r c).2 = d at hskips hend
  obtain ⟨semicolon, e, hrun', he, hsees⟩ := (sees_looks .semicolon).keeps.peel (c := d) rfl fun b => if b = true then
    take >>= fun _ => pure true else (pure false : Rule Bool)
  have hrun' : accept .semicolon d = _ := hrun'
  rw [hrun']
  cases semicolon with
  | true =>
    obtain ⟨l, ls, ha, hk⟩ := (hsees.mp rfl).cons
    have hd : (take e).2.toReading = _ := take_past he ha
    have hword : l.token.startsDecl = false := by simp [Token.startsDecl, Token.isWord, show l.token.kind = .semicolon from hk]
    refine ⟨hskips.trans (hd ▸ .past ha hskips.lexical hword), .inl ⟨d.parts ++ leavesFor l.lead, l.token, ?_, hk⟩⟩
    refine (congrArg Reading.parts hd).trans ?_
    rw [Reading.past, leavesFor_tokens, List.append_assoc]
  | false =>
    refine ⟨hskips.trans (.of_eq (congrArg Reading.parts he) (congrArg Reading.outlook he) hskips.lexical), .inr ?_⟩
    have hahead : ((pure false : Rule Bool) e).2.ahead = d.ahead := congrArg Reading.ahead he
    rw [if_neg Bool.false_ne_true, hahead]
    exact hend.imp_right fun h => h.resolve_left fun hk => Bool.false_ne_true (hsees.mpr hk)

/-! ## A declaration of no known kind -/

/-- An empty node behind trivia that are all that is left holds nothing. -/
theorem emptyNode_skips {c : Cursor} (hl : c.outlook.Lexical) :
    Skips c.toReading ((do if ← onlyTriviaLeft then node .error (pure ()) : Rule Unit) c).2.toReading := by
  rw [emptyNode_run]
  cases ha : c.ahead with
  | cons l ls => exact .of_eq rfl rfl hl
  | nil =>
    refine ⟨⟨trailing c.tail, rfl, ?_⟩, List.forall_mem_nil _, .nil, List.forall_mem_nil _⟩
    have hleaves : leavesOf (trailing c.tail) = c.tail := by
      cases c.tail with
      | nil => rfl
      | cons t ts => simp [trailing, leavesFor, Tree.leavesOf, Tree.leavesOf_append, Tree.leavesOf_map_leaf]
    rw [hleaves]
    exact .of_trivia hl.tail

/-- Behind the first word of a declaration of no known kind perhaps the next word is taken, and nothing else. -/
theorem unknownRest_takes (keyword : String) {c : Cursor} (hl : c.outlook.Lexical) :
    ∃ ts w rest, (unknownRest keyword (wordIn 0 c.ahead) c).2.parts = c.parts ++ ts ∧ leavesOf ts = w ++ rest ∧ Token.AllTrivia w ∧
      Token.Idle rest.tail ∧ (unknownRest keyword (wordIn 0 c.ahead) c).2.outlook.Lexical := by
  cases hword : wordIn 0 c.ahead with
  | none =>
    obtain ⟨⟨⟨ts, hts, hidle⟩, hlexical⟩, -⟩ := report_skips .expectedKeyword ("a declaration keyword after " ++ quoted keyword) hl
    exact ⟨ts, [], leavesOf ts, hts, rfl, .nil, fun t ht => hidle t (List.mem_of_mem_tail ht), hlexical⟩
  | some name =>
    obtain ⟨l, ls, ha, -⟩ := (kindAt_of_wordIn (o := c.outlook) (Option.isSome_of_eq_some hword)).cons
    have ha : c.ahead = l :: ls := ha
    let d := (report .unknownDeclaration (keyword ++ " " ++ name) c).2
    have hparts : d.parts = c.parts := (addReport_fields c.look _ _).2.1
    have ho : d.outlook = c.outlook := (report_skips _ _ hl).2
    have hd : d.ahead = l :: ls := (congrArg Outlook.ahead ho).trans ha
    have hpast : (take d).2.toReading = d.toReading.past (leavesFor l.tokens) [l] ls := take_past rfl hd
    have hl : d.outlook.Lexical := ho ▸ hl
    rw [Reading.outlook, hd] at hl
    have hlexical : (take d).2.outlook.Lexical := by
      rw [hpast]
      exact hl.tail_cons
    obtain ⟨⟨ts, hts, hidle⟩, hlexical'⟩ := emptyNode_skips hlexical
    refine ⟨leavesFor l.tokens ++ ts, l.lead, l.token :: leavesOf ts, ?_, ?_, hl.leads l (List.mem_cons_self ..), hidle, hlexical'⟩
    · refine hts.trans ?_
      rw [hpast, Reading.past, hparts, List.append_assoc]
    · have hleaves : leavesOf (leavesFor l.tokens) = l.lead ++ [l.token] := Tree.leavesOf_map_leaf l.tokens
      rw [Tree.leavesOf_append, hleaves, List.append_assoc]
      rfl

/-- Of a declaration of no known kind the first word is taken, perhaps the next one, and nothing else. -/
theorem unknownDecl_takes {c : Cursor} {l : Lexeme} {ls : List Lexeme} (ha : c.ahead = l :: ls) (hl : c.outlook.Lexical) :
    ∃ ts w rest, (unknownDecl c).2.parts = c.parts ++ ts ∧ leavesOf ts = l.lead ++ l.token.asKeyword :: (w ++ rest) ∧
      Token.AllTrivia w ∧ Token.Idle rest.tail ∧ (unknownDecl c).2.outlook.Lexical := by
  have hpast : (takeKeyword c.look).2.toReading = c.toReading.past (leavesFor l.lead ++ [.leaf l.token.asKeyword]) [l] ls :=
    advance_past (c := c.look) Token.asKeyword ha
  obtain ⟨_, d, hrun, hd, rfl⟩ := (wordAt?_looks 0).keeps.peel hpast fun word => do
    unknownRest (nextText c).1 word
    return false
  have htext : (nextText c).2 = c.look := by rw [nextText_run]
  have hrun : (unknownDecl c).2 = (unknownRest (nextText c).1 (wordIn 0 ls) d).2 := by
    rw [unknownDecl_eq, bind_run, htext]
    exact congrArg Prod.snd hrun
  have hlexical : d.outlook.Lexical := by
    rw [hd]
    rw [Reading.outlook, ha] at hl
    exact hl.tail_cons
  obtain ⟨ts, w, rest, hts, hleaves, hw, hidle, hlexical'⟩ := unknownRest_takes (nextText c).1 hlexical
  have hahead : d.ahead = ls := congrArg Reading.ahead hd
  rw [hahead] at hts hlexical'
  refine ⟨leavesFor l.lead ++ .leaf l.token.asKeyword :: ts, w, rest, ?_, ?_, hw, hidle, ?_⟩
  · rw [hrun]
    refine hts.trans ?_
    rw [hd]
    simp [Reading.past]
  · have hlead : leavesOf (leavesFor l.lead) = l.lead := Tree.leavesOf_map_leaf _
    rw [Tree.leavesOf_append, hlead, Tree.leavesOf, hleaves]
    rfl
  · rw [hrun]
    exact hlexical'

end Grammar

end QueryStubs
