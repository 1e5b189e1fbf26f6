import QueryStubs.Proofs.Opaque.Layout

/-!
# Bodies, values and setters

What may stand in the place of the body of a function, of the value of a variable or between two setters, told by tokens: a source with the
new tokens is read without an error, and as the tree with the new tokens in it (`Parsed.Around.body`, `Parsed.Around.value`,
`Parsed.Around.setter`).
-/

namespace QueryStubs

open Grammar
open QueryStubs.Tree (constructs)

/-- The kinds of the tokens that are no trivia. -/
def Token.bareKinds (ts : List Token) : List TokenKind := (ts.filter (!·.isTrivia)).map (·.kind)

/-- Tokens are lexemes and trivia behind the last of them. -/
theorem Token.lexemes {ts : List Token} (hk : ∀ t ∈ ts, t.kind ≠ .keyword) :
    ∃ (run : List Lexeme) (w : List Token), ts = run.flatMap Lexeme.tokens ++ w ∧ AllTrivia w ∧ run.map (·.kind) = bareKinds ts ∧
      ∀ l ∈ run, AllTrivia l.lead ∧ l.token.isTrivia = false ∧ l.kind ≠ .keyword := by
  obtain ⟨hrun, hw⟩ := Lexeme.allTrivia_split 0 [] ts .nil
  have hkinds : (Lexeme.split 0 [] ts).1.map (·.kind) = bareKinds ts := by
    rw [bareKinds, ← tokens_look 0 0, List.map_map]
    rfl
  refine ⟨_, _, (Lexeme.tokens_split 0 [] ts).symm, hw, hkinds, fun l hl => ?_⟩
  obtain ⟨hlead, hmem, htrivia⟩ := hrun l hl
  exact ⟨hlead, htrivia, hk _ hmem⟩

namespace Grammar

/-! ## Brackets and values -/

/-- A token with the kind of a mark can be built of the mark, behind trivia. -/
theorem mark_spells {w : List Token} (hw : Token.AllTrivia w) {kind : TokenKind} {t : Token} (ht : t.kind = kind)
    (hkind : kind.isTrivia = false ∧ kind ≠ .keyword) : Spells (.mark kind) (leavesFor w ++ [.leaf t]) := by
  subst ht
  exact .one_behind hw hkind.1 hkind.2 (decide_eq_true rfl)

/-- A row that starts with a mark does not start with trivia. -/
theorem fronted_mark {kind : TokenKind} {t : Token} (ht : t.kind = kind) (hkind : kind.isTrivia = false ∧ kind ≠ .keyword) (ts : List Tree) :
    Fronted (.leaf t :: ts) := by
  subst ht
  have hscanned : t.asScanned = t := if_neg hkind.2
  exact ⟨t, tokensOf ts, by simp [hscanned], hkind.1⟩

/-- Whatever has balanced braces can stand between two braces. -/
theorem braces_spell {opening closing : Token} (ho : opening.kind = .braceOpen) (hc : closing.kind = .braceClose) {ts : List Token}
    (hk : ∀ t ∈ ts, t.kind ≠ .keyword) (hb : Balanced .braceOpen .braceClose (Token.bareKinds ts)) :
    Spells (.bracketed .braceOpen .braceClose) (.leaf opening :: (leavesFor ts ++ [.leaf closing])) := by
  obtain ⟨run, w, hts, hw, hkinds, hrun⟩ := Token.lexemes hk
  have hopening := mark_spells .nil ho (by decide)
  have hclosing := mark_spells hw hc (by decide)
  refine (hopening.seq ((Spells.run hrun (hkinds ▸ hb)).seq hclosing)).of_eq ?_
  rw [hts]
  simp [leavesFor]

/-- What was built of braces and what is between them. -/
theorem braces_of_built {us : List Tree} (h : (Form.bracketed .braceOpen .braceClose).Built us) :
    ∃ opening ts closing, opening.kind = .braceOpen ∧ closing.kind = .braceClose ∧
      us = .leaf opening :: (leavesFor ts ++ [.leaf closing]) := by
  obtain ⟨o, o', -, hn, h⟩ := h
  cases h with
  | seq hopen h =>
    cases h with
    | seq hrun hclose =>
      cases hopen with
      | @one _ l _ _ _ hl =>
        cases hrun with
        | @run _ run =>
          cases hclose with
          | @one _ k _ _ _ hk =>
            rw [show l.lead = [] from hn]
            exact ⟨l.token, run.flatMap Lexeme.tokens ++ k.lead, k.token, of_decide_eq_true hl, of_decide_eq_true hk, by simp [leavesFor]⟩

/-- A value and the semicolon behind it, which the trivia between them belong to. -/
theorem value_spells {assign semicolon : Token} (ha : assign.kind = .colonEquals) (hs : semicolon.kind = .semicolon) {ts : List Token}
    (hk : ∀ t ∈ ts, t.kind ≠ .keyword) (hv : ValueKinds (Token.bareKinds ts)) :
    ∃ run w, ts = run ++ w ∧ Spells (.row [.mark .colonEquals, .run ValueKinds]) (.leaf assign :: leavesFor run) ∧
      Spells (.mark .semicolon) (leavesFor w ++ [.leaf semicolon]) := by
  obtain ⟨run, w, hts, hw, hkinds, hrun⟩ := Token.lexemes hk
  have hassign := mark_spells .nil ha (by decide)
  exact ⟨run.flatMap Lexeme.tokens, w, hts, hassign.seq (.run hrun (hkinds ▸ hv)), mark_spells hw hs (by decide)⟩

/-- What was built of a value. -/
theorem value_of_built {us : List Tree} (h : (Form.row [.mark .colonEquals, .run ValueKinds]).Built us) :
    ∃ assign ts, assign.kind = .colonEquals ∧ us = .leaf assign :: leavesFor ts := by
  obtain ⟨o, o', -, hn, h⟩ := h
  cases h with
  | seq hassign hrun =>
    cases hassign with
    | @one _ l _ _ _ hl =>
      cases hrun with
      | @run _ run =>
        rw [show l.lead = [] from hn]
        exact ⟨l.token, _, of_decide_eq_true hl, rfl⟩

/-! ## Nodes at the end -/

/-- Whether nothing comes behind a node of a kind in what a form builds. -/
def Form.endsWith (kind : NodeKind) : Form → Bool
  | .seq f g => !f.kinds.contains kind && g.endsWith kind
  | .either f g => f.endsWith kind && g.endsWith kind
  | .many f => !f.kinds.contains kind
  | .guard _ f => f.endsWith kind
  | .node _ _ | .leadNode _ _ | .nothing | .one _ | .keyword _ | .prefixed | .run _ | .trivia => true

/-- A kind that a form does not have is the kind of no node in what it makes. -/
theorem Form.Makes.no_node {f : Form} {ts A us B : List Tree} {kind : NodeKind} (h : f.Makes ts) (hk : (!f.kinds.contains kind) = true)
    (hts : ts = A ++ .node kind us :: B) : False := by
  have hmem : kind ∈ Tree.kindsOf ts := by
    rw [hts, Tree.kindsOf_append]
    exact List.mem_append_right _ (by simp [Tree.kindsOf])
  simp [h.kinds kind hmem] at hk

/-- Nothing comes behind a node that a form ends with. -/
theorem Form.Makes.last {f : Form} {ts A us B : List Tree} {kind : NodeKind} (h : f.Makes ts) (hf : f.endsWith kind = true)
    (hts : ts = A ++ .node kind us :: B) : B = [] := by
  induction f generalizing ts A with
  | nothing | one | keyword | prefixed | run | trivia => exact (h.no_node (by simp [Form.kinds]) hts).elim
  | seq f g _ ih =>
    obtain ⟨hf, hg⟩ := Bool.and_eq_true_iff.mp hf
    obtain ⟨us, vs, rfl, hus, hvs⟩ := h
    rcases append_eq_node hts with ⟨C, hC, -⟩ | ⟨C, hC, -⟩
    · exact (hus.no_node hf hC).elim
    · exact ih hvs hg hC
  | either f g ih ih' =>
    obtain ⟨hf, hg⟩ := Bool.and_eq_true_iff.mp hf
    rcases h with h | h
    · exact ih h hf hts
    · exact ih' h hg hts
  | many f => exact (h.no_node hf hts).elim
  | node k f =>
    obtain ⟨w, us, -, rfl, -⟩ := h
    exact (leavesFor_append_node hts).2.2.2
  | leadNode k f =>
    obtain ⟨us, rfl, -⟩ := h
    exact (leavesFor_append_node (w := []) hts).2.2.2
  | guard T f ih => exact ih h hf hts

end Grammar

/-! ## What may stand in their place -/

namespace Parsed.Around

variable {s : String} {front ps behind before us after : List Tree}

/-- A prolog with something else from some place on may stand in the place of a prolog. -/
theorem again_from (h : Around s front ps behind) (hps : ps = before ++ after) {vs : List Tree} (hs : Spells .prolog (before ++ vs))
    (hv : Fronted vs) : ReadAs (front ++ .node .prolog (before ++ vs) :: behind) :=
  h.again _ hs (hv.tokens_ne_nil before) fun hhead => (hps ▸ hhead).replace hv

/-- A declaration of a kind may stand in the place of another. -/
theorem decl (h : Around s front ps behind) {kind : NodeKind}
    (hsole : Form.prolog.Sole kind (.seq (.declBody kind) (.mark .semicolon))) (hps : ps = before ++ .node kind us :: after) :
    (Form.seq (.declBody kind) (.mark .semicolon)).Built us ∧
      ∀ vs, Spells (.seq (.declBody kind) (.mark .semicolon)) vs → Fronted vs →
        ReadAs (front ++ .node .prolog (before ++ .node kind vs :: after) :: behind) := by
  obtain ⟨o, o', ho, hb⟩ := h.built
  obtain ⟨hbuilt, hall⟩ := hb.exchange (by decide) hsole ho hps
  exact ⟨hbuilt, fun vs hs hv => h.again_from hps (hall vs hs hv) hv.node⟩

/-- Whatever has balanced braces may stand in the body of a function. -/
theorem body (h : Around s front ps behind) (hps : ps = before ++ .node .functionDecl us :: after) {A inner B : List Tree}
    (hus : us = A ++ .node .enclosedBody inner :: B) :
    ∃ opening old closing, opening.kind = .braceOpen ∧ closing.kind = .braceClose ∧
      inner = .leaf opening :: (leavesFor old ++ [.leaf closing]) ∧
        ∀ new, (∀ t ∈ new, t.kind ≠ .keyword) → Balanced .braceOpen .braceClose (Token.bareKinds new) →
          ∃ vs, vs = A ++ .node .enclosedBody (.leaf opening :: (leavesFor new ++ [.leaf closing])) :: B ∧
            ReadAs (front ++ .node .prolog (before ++ .node .functionDecl vs :: after) :: behind) := by
  have hsole : Form.prolog.Sole .functionDecl (.seq (.declBody .functionDecl) (.mark .semicolon)) := by
    simp [Form.Sole, Form.prolog, Form.declOf, Form.anyOf, Form.setterKinds, Form.otherKinds, Form.declared, Form.never]
  have hsole' : (Form.seq (.declBody .functionDecl) (.mark .semicolon)).Sole .enclosedBody (.bracketed .braceOpen .braceClose) := by
    simp [Form.Sole, Form.declBody, Form.keywords, Form.declWords, Form.declRest, Form.functionRest, Form.row, Form.qname,
      Form.paramList, Form.optional, Form.typeDecl, Form.functionBody, Form.mark]
  obtain ⟨⟨o, o', ho, hn, hb⟩, hall⟩ := h.decl hsole hps
  have hsolid := declBody_solid .functionDecl (by decide)
  obtain ⟨hin, hbody⟩ := hb.exchange hsolid.2 hsole' ho hus
  have hfront := hb.fronted ho hn (hb.tokens_ne_nil hsolid.1)
  obtain ⟨opening, old, closing, hopen, hclose, hinner⟩ := braces_of_built hin
  refine ⟨opening, old, closing, hopen, hclose, hinner, fun new hk hbal => ⟨_, rfl, ?_⟩⟩
  have hnew : Fronted (.leaf opening :: (leavesFor new ++ [.leaf closing])) := fronted_mark hopen (by decide) _
  exact hall _ (hbody _ (braces_spell hopen hclose hk hbal) hnew) ((hus ▸ hfront).replace hnew.node)

/-- Whatever a value may consist of may stand between the mark that assigns a value and the semicolon. -/
theorem value (h : Around s front ps behind) (hps : ps = before ++ .node .varDecl us :: after) {A inner B : List Tree}
    (hus : us = A ++ .node .varValue inner :: B) :
    ∃ assign old lead semicolon, assign.kind = .colonEquals ∧ semicolon.kind = .semicolon ∧ inner = .leaf assign :: leavesFor old ∧
      B = leavesFor lead ++ [.leaf semicolon] ∧
        ∀ new, (∀ t ∈ new, t.kind ≠ .keyword) → ValueKinds (Token.bareKinds new) →
          ∃ run w, new = run ++ w ∧ ∃ vs, vs = A ++ .node .varValue (.leaf assign :: leavesFor run) :: (leavesFor w ++ [.leaf semicolon]) ∧
            ReadAs (front ++ .node .prolog (before ++ .node .varDecl vs :: after) :: behind) := by
  have hsole : Form.prolog.Sole .varDecl (.seq (.declBody .varDecl) (.mark .semicolon)) := by
    simp [Form.Sole, Form.prolog, Form.declOf, Form.anyOf, Form.setterKinds, Form.otherKinds, Form.declared, Form.never]
  have hsole' : (Form.declBody .varDecl).Sole .varValue (.row [.mark .colonEquals, .run ValueKinds]) := by
    simp [Form.Sole, Form.declBody, Form.keywords, Form.declWords, Form.declRest, Form.varRest, Form.varValue, Form.row, Form.qname,
      Form.optional, Form.typeDecl, Form.word, Form.mark]
  obtain ⟨⟨o, o', ho, hn, hb⟩, hall⟩ := h.decl hsole hps
  have hsolid := declBody_solid .varDecl (by decide)
  have hfront := hb.fronted ho hn (hb.tokens_ne_nil hsolid.1)
  cases hb with
  | @seq _ _ _ p _ ys zs hb hsemicolon =>
    cases hsemicolon with
    | @one _ l ls tail reached hl =>
      have hl : l.token.kind = .semicolon := of_decide_eq_true hl
      rcases append_eq_node hus with ⟨C, hC, rfl⟩ | ⟨C, hC, -⟩
      · obtain rfl : C = [] := (hb.makes ho.lexical).last (by decide) hC
        obtain ⟨hin, hvalue⟩ := hb.exchange (by decide) hsole' ho hC
        obtain ⟨assign, old, ha, hinner⟩ := value_of_built hin
        refine ⟨assign, old, l.lead, l.token, ha, hl, hinner, rfl, fun new hk hv => ?_⟩
        obtain ⟨run, w, hnew, hrun, hw⟩ := value_spells ha hl hk hv
        refine ⟨run, w, hnew, _, rfl, ?_⟩
        have hfronted : Fronted (.leaf assign :: leavesFor run) := fronted_mark ha (by decide) _
        have hspells := (hvalue _ hrun hfronted).seq hw
        rw [List.append_assoc, List.cons_append, List.nil_append] at hspells
        exact hall _ hspells ((hus ▸ hfront).replace hfronted.node)
      · exact absurd (by simp) (constructs_ne_nil hC)

/-- A setter may stand anywhere among setters and behind the last of them. -/
theorem setter (h : Around s front ps behind) (hps : ps = before ++ after) (hbefore : ∀ c ∈ constructs before, c.1 ∈ Form.setterKinds) :
    Token.Closed (tokensOf before) ∧ ∀ kind ∈ Form.setterKinds, ∀ us, IsInside kind us →
      ReadAs (front ++ .node .prolog (before ++ .node kind us :: after) :: behind) := by
  obtain ⟨o, o', ho, hb⟩ := h.built
  have hdecls : Decls false (before ++ after) := hps ▸ decls_of_prolog hb ho
  exact ⟨hdecls.closed, fun kind hk us hin => h.again_from hps (hdecls.insert hbefore hk hin).prolog hin.fronted.node⟩

end Parsed.Around

end QueryStubs
