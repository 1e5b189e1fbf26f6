import QueryStubs.Proofs.Opaque.Excerpts
import QueryStubs.Proofs.Recovery.Declarations

/-!
# Reading on behind what is broken

A prolog is a row of declarations, right or wrong, and wherever one of them ends and another starts, the reading goes on with that one
(`Resumed`). This holds of the prolog of every source (`prologDecls_resumes`), so the declaration of a function among broken ones is read as it
is alone (`Parsed.declarations_resume`), unless its first word was taken for the second of a declaration of no known kind
(`Parsed.function_swallowed`).
-/

namespace QueryStubs

open Grammar
open QueryStubs.Tree (leavesOf constructs)

namespace Grammar

/-! ## Rows of declarations -/

/-- A complete declaration that some tokens start with is the whole of the declaration that was made of them. -/
def Whole (kind : NodeKind) (us : List Tree) (left : List Token) : Prop :=
  ∀ k vs more, k ∈ declKinds → IsInside k vs → tokensOf us ++ left = tokensOf vs ++ more → kind = k ∧ us = vs

/-- Declarations as they were read one by one, up to where none comes next. -/
inductive Resumed : List Tree → List Token → Prop
  | done {left : List Token} : (∀ t, Token.next? left = some t → t.startsDecl = false) → Resumed [] left
  | decl {w : List Token} {kind : NodeKind} {us ts : List Tree} {left : List Token} : Token.AllTrivia w → Recovered kind us →
      Ended us (tokensOf ts ++ left) → Whole kind us (tokensOf ts ++ left) → Resumed ts left →
        Resumed (leavesFor w ++ .node kind us :: ts) left

/-- The word that a complete declaration starts with starts a declaration. -/
theorem IsInside.starts {kind : NodeKind} {us : List Tree} (h : IsInside kind us) (hk : kind ∈ declKinds) :
    ∃ t ts, tokensOf us = t :: ts ∧ t.startsDecl = true := by
  have hwords : ∀ kind ∈ declKinds, ∃ w ∈ ["declare", "import"], (Form.declWords kind).head? = some [w] := by decide
  obtain ⟨w, hmem, hw⟩ := hwords kind hk
  obtain ⟨ts, hts⟩ := h.word hw
  have hstarts : ∀ w ∈ ["declare", "import"], (Token.ofName w).startsDecl = true := by decide
  exact ⟨_, ts, hts, hstarts w hmem⟩

namespace Resumed

variable {before ts : List Tree} {left : List Token}

/-- What is behind part of such a row is such a row. -/
theorem behind (h : Resumed (before ++ ts) left) : Resumed ts left := by
  generalize hrow : before ++ ts = row at h
  induction h generalizing before with
  | done hnone =>
    obtain ⟨rfl, rfl⟩ := List.append_eq_nil_iff.mp hrow
    exact .done hnone
  | decl hw hrecovered hended hwhole hrest ih =>
    rcases cut_row hrow.symm with ⟨w₁, w₂, rfl, rfl, rfl⟩ | ⟨rest, rfl, hrest⟩
    · exact .decl (List.forall_mem_append.mp hw).2 hrecovered hended hwhole hrest
    · exact ih hrest.symm

/-- The first declaration of a row. -/
theorem head {kind : NodeKind} {us : List Tree} (h : Resumed (.node kind us :: ts) left) :
    Recovered kind us ∧ Ended us (tokensOf ts ++ left) := by
  generalize hrow : Tree.node kind us :: ts = row at h
  cases h with
  | done => cases hrow
  | @decl w k vs rest _ hw hrecovered hended =>
    cases w with
    | nil =>
      obtain ⟨hnode, rfl⟩ := List.cons.inj hrow
      obtain ⟨rfl, rfl⟩ := Tree.node.inj hnode
      exact ⟨hrecovered, hended⟩
    | cons t w => exact nomatch (List.cons.inj hrow).1

/-- Every declaration of a row is recovered from. -/
theorem recovered (h : Resumed ts left) : ∀ x ∈ constructs ts, Recovered x.1 x.2 := by
  induction h with
  | done => exact List.forall_mem_nil _
  | decl _ hrecovered _ _ _ ih =>
    rw [Tree.constructs_append, Tree.constructs_leavesFor]
    exact List.forall_mem_cons.mpr ⟨hrecovered, ih⟩

/-- Where a declaration comes next, the row goes on with it. -/
theorem next (h : Resumed ts left) {t : Token} (ht : Token.next? (tokensOf ts ++ left) = some t) (hstarts : t.startsDecl = true) :
    ∃ w kind us rest, Token.AllTrivia w ∧ ts = leavesFor w ++ .node kind us :: rest := by
  cases h with
  | done hnone => exact nomatch (hnone t ht).symm.trans hstarts
  | decl hw => exact ⟨_, _, _, _, hw, rfl⟩

/-- Where a complete declaration comes next, the row goes on with all of it and nothing else. -/
theorem whole (h : Resumed ts left) {w more : List Token} (hw : Token.AllTrivia w) {kind : NodeKind} (hk : kind ∈ declKinds) {us : List Tree}
    (hin : IsInside kind us) (htokens : tokensOf ts ++ left = w ++ (tokensOf us ++ more)) :
    ∃ rest, ts = leavesFor w ++ .node kind us :: rest := by
  obtain ⟨t, us', hus, ht⟩ := hin.starts hk
  have htrivia := Token.not_trivia_of_startsDecl ht
  cases h with
  | done hnone =>
    have hnext : Token.next? left = some t := by
      rw [show left = w ++ (tokensOf us ++ more) from htokens, Token.next?_trivia hw, hus]
      exact Token.next?_cons htrivia _
    exact nomatch (hnone t hnext).symm.trans ht
  | @decl v k vs rest _ hv hrecovered _ hwhole =>
    obtain ⟨u, vs', hvs, hu⟩ := hrecovered.starts
    have hrow : v ++ u :: (vs' ++ (tokensOf rest ++ left)) = w ++ t :: (us' ++ more) := by
      rw [tokensOf_append, tokensOf_trivia hv, tokensOf_cons, Tree.tokens_node, hvs, hus] at htokens
      simpa using htokens
    obtain ⟨rfl, hsame⟩ := Token.lead_unique hv hw (Token.not_trivia_of_startsDecl hu) htrivia hrow
    obtain ⟨rfl, rfl⟩ := hwhole kind us more hk hin (by rw [hvs, hus]; exact hsame)
    exact ⟨rest, rfl⟩

end Resumed

/-! ## The loop over declarations -/

/-- Where a declaration comes next, a round of the loop recovers from it, after a few looks, and does what is done behind it. -/
theorem prologStep_recovers {first : Option Span} {c : Cursor} (h : c.AtDecl first) {kind : NodeKind} (hk : declAhead c.ahead = some kind) :
    ∃ (e : Cursor) (us : List Tree), e.toReading = c.toReading ∧
      prologStep first c = afterDecl kind first e.nextSpan.start (fun a => pure (true, a)) (declaration kind (declBody kind) e).2 ∧
        (declaration kind (declBody kind) e).2.parts = c.parts ++ (leavesFor c.outlook.trivia ++ [.node kind us]) ∧
          c.left = c.outlook.trivia ++ (tokensOf us ++ (declaration kind (declBody kind) e).2.left) ∧ Recovered kind us ∧
            Ended us (declaration kind (declBody kind) e).2.left := by
  obtain ⟨hu, ha, -, hp, hf⟩ := h
  obtain ⟨e, he, hrun, hle, hspent⟩ := prologStep_run first hk
  have hspent := hspent (Nat.le_trans (by decide) hp)
  have ho : e.outlook = c.outlook := congrArg Reading.outlook he
  obtain ⟨us, hparts, hleft, hrecovered, hended⟩ :=
    declaration_recovers (he.symm ▸ hu) (he.symm ▸ ha) (he.symm ▸ hk) (by omega) (Nat.le_trans hle hf)
  rw [ho, he] at hparts hleft
  exact ⟨e, us, he, hrun, hparts, hleft, hrecovered, hended⟩

/-- Where no declaration comes next, no token that starts one does. -/
theorem Reading.Underway.no_start {s : Reading} (h : s.Underway) (hnone : declAhead s.ahead = none) :
    ∀ t, Token.next? s.left = some t → t.startsDecl = false := by
  refine fun t ht => Bool.eq_false_iff.mpr fun hstarts => ?_
  have hnext : Token.next? s.left = s.ahead.head?.map (·.token) := h.scanned.lexical.next?_left
  have hsome := declAhead_isSome_iff.mpr ⟨t, hnext.symm.trans ht, hstarts⟩
  rw [hnone] at hsome
  cases hsome

/-- A round of the loop reads the declaration that comes next. -/
theorem prologStep_resumes {first late : Option Span} {c d : Cursor} (h : c.AtDecl first) (hs : prologStep first c = ((true, late), d)) :
    ∃ w kind us, Token.AllTrivia w ∧ d.parts = c.parts ++ (leavesFor w ++ [.node kind us]) ∧ c.left = w ++ (tokensOf us ++ d.left) ∧
      Recovered kind us ∧ Ended us d.left ∧ Whole kind us d.left := by
  have hu := h.underway
  have htrivia : Token.AllTrivia c.outlook.trivia := hu.scanned.lexical.trivia
  obtain ⟨kind, hk⟩ := prologStep_more hs
  obtain ⟨e, us, he, hrun, hparts, hleft, hrecovered, hended⟩ := prologStep_recovers h hk
  obtain ⟨_, _, hafter, hparts', ho, -⟩ := afterDecl_fields kind first e.nextSpan.start (declaration kind (declBody kind) e).2
  obtain ⟨-, rfl⟩ := Prod.mk.inj (hs.symm.trans (hrun.trans hafter))
  have hsame : d.left = (declaration kind (declBody kind) e).2.left := congrArg Outlook.left ho
  refine ⟨c.outlook.trivia, kind, us, htrivia, hparts'.trans hparts, hsame.symm ▸ hleft, hrecovered, hsame ▸ hended, ?_⟩
  intro k vs more hkind hin htokens
  rw [hsame] at htokens
  obtain ⟨rfl, hwhole⟩ := (he.symm ▸ hu : e.Underway).whole (he.symm ▸ h.aligned) (he.symm ▸ hk) htrivia hkind hin
    (by rw [he, hleft, htokens])
  rw [he] at hwhole
  have hnodes := List.append_cancel_left (List.append_cancel_left (hparts.symm.trans hwhole))
  exact ⟨rfl, (Tree.node.inj (List.singleton_inj.mp hnodes)).2⟩

/-- So the loop reads on as long as a declaration comes next. -/
theorem prologDecls_resumes {c : Cursor} (h : c.AtProlog) : Resumed (prologDecls c).2.parts (prologDecls c).2.left := by
  obtain ⟨ts, hts, -, hresumed⟩ : ∃ ts, (prologDecls c).2.parts = c.parts ++ ts ∧ c.left = tokensOf ts ++ (prologDecls c).2.left ∧
      Resumed ts (prologDecls c).2.left := by
    refine prologLoop_induction (M := fun _ c d => ∃ ts, d.parts = c.parts ++ ts ∧ c.left = tokensOf ts ++ d.left ∧ Resumed ts d.left)
      (fun {first c d} hc hnone hd => ?_) (fun {first c _ d e} hc hs ⟨ts, hts, hleft, hresumed⟩ => ?_) none c h.atDecl
    · rw [hd]
      exact ⟨[], (List.append_nil _).symm, rfl, .done (hc.underway.no_start hnone)⟩
    · obtain ⟨w, kind, us, hw, hparts, hleft', hrecovered, hended, hwhole⟩ := prologStep_resumes hc hs
      refine ⟨leavesFor w ++ .node kind us :: ts, ?_, ?_, .decl hw hrecovered (hleft ▸ hended) (hleft ▸ hwhole) hresumed⟩
      · rw [hts, hparts]
        simp
      · rw [hleft', hleft, tokensOf_append, tokensOf_trivia hw]
        simp
  rw [hts, h.empty]
  exact hresumed

end Grammar

namespace Parsed

/-! ## Functions among broken declarations -/

/-- A text that is the declaration of a function and nothing else. -/
def IsFunction (d : String) (f : FunctionDecl) : Prop :=
  (ofSource d).hasErrors = false ∧ f ∈ (ofSource d).module.functions ∧ f.span = ⟨0, d.utf8ByteSize⟩

/-- Such a text has the tokens of a declaration that can be put anywhere, and of the same function further behind. -/
theorem IsFunction.inside {d : String} {f : FunctionDecl} (h : IsFunction d f) :
    ∃ us, IsInside .functionDecl us ∧ Token.ofSource d = tokensOf us ∧
      ∀ offset, Node.toFunctionDecl? ⟨.functionDecl, us, offset⟩ = some (f.moved offset) := by
  obtain ⟨hn, hf, hspan⟩ := h
  obtain ⟨us, hin, hscan, -, hcuts, hf⟩ := functions_inside hn hf
  rw [hspan] at hcuts hf
  have hall := Span.cuts_append "" d ""
  have htext : Token.textOf (tokensOf us) = d := by
    rw [← hcuts.extract_eq]
    simpa using hall.extract_eq
  refine ⟨us, hin, htext ▸ hscan, fun offset => ?_⟩
  have hmoved := Node.toFunctionDecl?_moved .functionDecl us 0 offset
  rwa [Nat.zero_add, hf] at hmoved

/-- How a source is read, broken as it may be: a prolog with trees in front of it and behind it. Of what the declarations in it took without
asking for it, nothing starts a declaration, but for the word right behind the first one of a declaration of no known kind. So each of them
ends where the next one starts at the latest, and where one starts between two others, or behind the last one, the prolog goes on with it.
If that is the declaration of a function, then the function is read as it is alone. -/
structure Resumes (source : String) (front decls behind : List Tree) : Prop where
  tree : (ofSource source).tree = .node .root (front ++ .node .prolog decls :: behind)
  tokens : Token.ofSource source = tokensOf front ++ (tokensOf decls ++ tokensOf behind)
  recovered : ∀ x ∈ constructs decls, Recovered x.1 x.2
  ended : ∀ before kind us after, decls = before ++ .node kind us :: after → Ended us (tokensOf after ++ tokensOf behind)
  next : ∀ before after t, decls = before ++ after → Token.next? (tokensOf after ++ tokensOf behind) = some t → t.startsDecl = true →
    ∃ w kind us rest, Token.AllTrivia w ∧ after = leavesFor w ++ .node kind us :: rest
  function : ∀ before after w d f more, decls = before ++ after → Token.AllTrivia w → IsFunction d f →
    tokensOf after ++ tokensOf behind = w ++ (Token.ofSource d ++ more) →
      (∃ us rest, after = leavesFor w ++ .node .functionDecl us :: rest) ∧
        f.moved (Token.sizeOf (tokensOf front ++ (tokensOf before ++ w))) ∈ (ofSource source).module.functions

/-- Reading goes on behind what is broken, in every source. -/
theorem declarations_resume (source : String) : ∃ front decls behind, Resumes source front decls behind := by
  obtain ⟨front, c, behind, hc, htree, hfirst, hleft⟩ := prolog_read source
  have hresumed := prologDecls_resumes hc
  rw [hleft] at hresumed
  generalize (prologDecls c).2.parts = decls at htree hresumed
  refine ⟨front, decls, behind, htree, ?_, hresumed.recovered, ?_, ?_, ?_⟩
  · rw [tokens_ofSource, htree]
    simp
  · rintro before kind us after rfl
    exact hresumed.behind.head.2
  · rintro before after t rfl ht hstarts
    exact hresumed.behind.next ht hstarts
  · rintro before after w d f more rfl hw hd htokens
    obtain ⟨us, hin, hscan, hf⟩ := hd.inside
    rw [hscan] at htokens
    obtain ⟨rest, rfl⟩ := hresumed.behind.whole hw (by decide) hin htokens
    have hone := functionsFrom_single (hf (Token.sizeOf (tokensOf front ++ (tokensOf before ++ w))))
    have hplace : Token.sizeOf (leavesOf front) + Token.sizeOf (leavesOf (before ++ leavesFor w)) =
        Token.sizeOf (tokensOf front ++ (tokensOf before ++ w)) := by
      rw [← sizeOf_tokensOf front, ← sizeOf_tokensOf, tokensOf_append, tokensOf_trivia hw, Token.sizeOf_append (tokensOf front)]
    refine ⟨⟨us, rest, rfl⟩, ?_⟩
    rw [functions_of_prolog htree hfirst, ← List.append_assoc, functionsFrom_append _ (before ++ leavesFor w), hplace,
      ← List.singleton_append, functionsFrom_append _ [.node .functionDecl us], hone]
    simp

-- A function behind an import that lacks everything but its first two words.
example : (ofSource "import module declare function f() external;").module.functions = [⟨⟨none, "f"⟩, [], none, .external, ⟨14, 44⟩⟩] := by
  cbv

/-- Where the word behind an unfinished declaration starts another one, that word is swallowed, and the function that is declared there is
lost. -/
theorem function_swallowed :
    (∃ us, (ofSource "declare declare function f() external;").tree = .node .root [.node .prolog [.node .error us]] ∧
      ∃ t ∈ Tree.recovered .error us, t.startsDecl = true) ∧
    (∃ f, IsFunction "declare function f() external;" f) ∧
    Token.ofSource "declare declare function f() external;" = .ofName "declare" :: .space :: Token.ofSource "declare function f() external;" ∧
    (ofSource "declare declare function f() external;").module.functions = [] := by
  have hfunction : (ofSource "declare function f() external;").module.functions = [⟨⟨none, "f"⟩, [], none, .external, ⟨0, 30⟩⟩] := by cbv
  refine ⟨⟨_, by cbv, .ofName "declare", ?_, by decide⟩, ⟨_, by cbv, hfunction ▸ List.mem_singleton_self _, rfl⟩, by cbv, by cbv⟩
  simp [Tree.recovered, leavesOf, Token.ofName]

end Parsed

end QueryStubs
