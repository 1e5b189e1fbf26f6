import QueryStubs.Proofs.Faultless.Functions
import QueryStubs.Proofs.Opaque.Spelling
import QueryStubs.Proofs.Scan.Seams

/-!
# Declarations in a prolog

A prolog is a row of declarations with trivia in front of each, setters first (`Decls`). Behind the trivia in front of a declaration, and
anywhere among them, another declaration can be put in: a setter where only setters come before (`Decls.insert`).
-/

namespace QueryStubs

open Grammar
open QueryStubs.Tree (constructs)

/-- A text can be cut behind trivia. -/
theorem Token.isSeam_of_trivia {t : Token} (h : t.isTrivia = true) : t.isSeam = true := by
  unfold isTrivia at h
  unfold isSeam
  revert h
  cases t.kind <;> simp [TokenKind.isTrivia, TokenKind.isSeam]

theorem Token.AllTrivia.closed {ts : List Token} (h : AllTrivia ts) : Closed ts :=
  fun m hm => isSeam_of_trivia (h m (List.mem_of_getLast? hm))

/-- One of several forms. -/
theorem Spells.anyOf {fs : List Form} {f : Form} (hf : f ∈ fs) {us : List Tree} (h : Spells f us) : Spells (.anyOf fs) us := by
  induction fs with
  | nil => cases hf
  | cons g fs ih =>
    rcases List.mem_cons.mp hf with rfl | hf
    · exact h.first
    · exact (ih hf).second

namespace Grammar

/-! ## Single declarations -/

/-- The inside of a declaration of a kind, which can be put anywhere. -/
structure IsInside (kind : NodeKind) (us : List Tree) : Prop where
  spells : Spells (.seq (.declBody kind) (.mark .semicolon)) us
  fronted : Fronted us

/-- Each declaration takes a token and asks nothing of what follows it. -/
theorem declBody_solid : ∀ kind ∈ declKinds, (Form.seq (.declBody kind) (.mark .semicolon)).eager = true ∧
    (Form.seq (.declBody kind) (.mark .semicolon)).solid = true := by decide

/-- What was built of a declaration can be put anywhere. -/
theorem Form.Built.inside {kind : NodeKind} (hk : kind ∈ declKinds) {us : List Tree}
    (h : (Form.seq (.declBody kind) (.mark .semicolon)).Built us) : IsInside kind us :=
  have hsolid := declBody_solid kind hk
  ⟨(h.spells hsolid.1 hsolid.2).1, (h.spells hsolid.1 hsolid.2).2⟩

/-- What is built with a semicolon at its end ends with that semicolon. -/
theorem Form.Builds.ends {f : Form} {o o' : Outlook} {us : List Tree} (h : (Form.seq f (.mark .semicolon)).Builds o us o') :
    ∃ ts n, tokensOf us = ts ++ [n] ∧ n.kind = .semicolon := by
  cases h with
  | seq _ h =>
    cases h with
    | @one _ l _ _ _ hk =>
      have hkind : l.token.kind = .semicolon := of_decide_eq_true hk
      have hscanned : l.token.asScanned = l.token := by simp [Token.asScanned, hkind]
      exact ⟨_, l.token, by rw [tokensOf_append, tokensOf_append, ← List.append_assoc, tokensOf_cons, Tree.tokens_leaf, hscanned]; rfl, hkind⟩

/-- A text can be cut behind a semicolon. -/
theorem closed_of_semicolon {us : List Tree} (h : ∃ ts n, tokensOf us = ts ++ [n] ∧ n.kind = .semicolon) : Token.Closed (tokensOf us) := by
  obtain ⟨ts, n, hus, hn⟩ := h
  rw [hus]
  exact Token.closed_concat ts (by rw [Token.isSeam, hn]; rfl)

/-- A declaration ends with a semicolon. -/
theorem IsInside.ends {kind : NodeKind} {us : List Tree} (h : IsInside kind us) : ∃ ts n, tokensOf us = ts ++ [n] ∧ n.kind = .semicolon := by
  obtain ⟨_, _, hb⟩ := h.spells 0 0 []
  exact hb.ends

theorem IsInside.closed {kind : NodeKind} {us : List Tree} (h : IsInside kind us) : Token.Closed (tokensOf us) :=
  closed_of_semicolon h.ends

/-- A declaration behind trivia. -/
theorem IsInside.declared {kinds : List NodeKind} {kind : NodeKind} {us : List Tree} (h : IsInside kind us) (hk : kind ∈ kinds)
    {w : List Token} (hw : Token.AllTrivia w) : Spells (.declOf kinds) (leavesFor w ++ [.node kind us]) :=
  .anyOf (List.mem_map_of_mem hk) (.node_behind hw kind h.spells h.fronted)

/-! ## Declarations in a row -/

/-- Declarations with trivia in front of each, setters before the others, or no setters where they come too late. -/
inductive Decls : Bool → List Tree → Prop
  | none (late : Bool) : Decls late []
  | setter {w : List Token} {kind : NodeKind} {us ts : List Tree} : Token.AllTrivia w → kind ∈ Form.setterKinds → IsInside kind us →
      Decls false ts → Decls false (leavesFor w ++ .node kind us :: ts)
  | other {late : Bool} {w : List Token} {kind : NodeKind} {us ts : List Tree} : Token.AllTrivia w → kind ∈ Form.otherKinds →
      IsInside kind us → Decls true ts → Decls late (leavesFor w ++ .node kind us :: ts)

/-- Setters, and then the others. -/
theorem Decls.split {late : Bool} {ts : List Tree} (h : Decls late ts) :
    ∃ us vs, ts = us ++ vs ∧ (late = true → us = []) ∧ Spells (.many (.declOf Form.setterKinds)) us ∧
      Spells (.many (.declOf Form.otherKinds)) vs := by
  induction h with
  | none => exact ⟨[], [], rfl, fun _ => rfl, .none, .none⟩
  | setter hw hk hin _ ih =>
    obtain ⟨us, vs, rfl, -, hus, hvs⟩ := ih
    exact ⟨_, vs, by simp, nofun, (hin.declared hk hw).manyCons hus, hvs⟩
  | other hw hk hin _ ih =>
    obtain ⟨us, vs, rfl, hnil, -, hvs⟩ := ih
    obtain rfl := hnil rfl
    exact ⟨[], _, by simp, fun _ => rfl, .none, (hin.declared hk hw).manyCons hvs⟩

/-- Such a row is a prolog. -/
theorem Decls.prolog {ts : List Tree} (h : Decls false ts) : Spells .prolog ts := by
  obtain ⟨us, vs, rfl, -, hus, hvs⟩ := h.split
  exact hus.seq hvs

/-- One of several declarations is a node behind trivia. -/
theorem row_of_declOf {kinds : List NodeKind} (hkinds : ∀ kind ∈ kinds, kind ∈ declKinds) {o o' : Outlook} {ts : List Tree}
    (h : (Form.declOf kinds).Builds o ts o') (ho : o.Scanned) :
    ∃ w kind us, ts = leavesFor w ++ [.node kind us] ∧ Token.AllTrivia w ∧ kind ∈ kinds ∧ IsInside kind us := by
  obtain ⟨kind, hk, h⟩ := Form.declOf_iff.mp h
  cases h with
  | node h => exact ⟨_, kind, _, rfl, ho.lexical.trivia, hk, Form.Built.inside (hkinds kind hk) ⟨_, _, ho.placed, o.trivia_placed, h⟩⟩

/-- What is built of a form time and again is built of it row by row. -/
theorem rows_of_many {f : Form} {o o' : Outlook} {ts : List Tree} (h : (Form.many f).Builds o ts o') (ho : o.Scanned) :
    ∃ rows : List (List Tree), ts = rows.flatten ∧ ∀ row ∈ rows, ∃ p p', p.Scanned ∧ f.Builds p row p' := by
  generalize hm : Form.many f = g at h
  induction h with
  | manyNil => exact ⟨[], rfl, List.forall_mem_nil _⟩
  | @manyCons f o o' o'' ts us hb hb' _ ih =>
    cases hm
    obtain ⟨rows, rfl, hrows⟩ := ih (hb.scanned ho) rfl
    exact ⟨ts :: rows, rfl, List.forall_mem_cons.mpr ⟨⟨o, o', ho, hb⟩, hrows⟩⟩
  | _ => cases hm

/-- What is built of a prolog is such a row. -/
theorem decls_of_prolog {o o' : Outlook} {ts : List Tree} (h : Form.prolog.Builds o ts o') (ho : o.Scanned) : Decls false ts := by
  cases h with
  | seq hs hr =>
    obtain ⟨rows, rfl, hrows⟩ := rows_of_many hs ho
    obtain ⟨rest, rfl, hrest⟩ := rows_of_many hr (hs.scanned ho)
    have hothers : ∀ late, Decls late rest.flatten := by
      clear hr
      induction rest with
      | nil => exact .none
      | cons row rest ih =>
        intro late
        obtain ⟨⟨p, p', hp, hb⟩, hnext⟩ := List.forall_mem_cons.mp hrest
        obtain ⟨w, kind, us, rfl, hw, hk, hin⟩ := row_of_declOf (fun _ => List.mem_append_right _) hb hp
        rw [List.flatten_cons, List.append_assoc]
        exact .other hw hk hin (ih hnext true)
    clear hs
    induction rows with
    | nil => exact hothers false
    | cons row rows ih =>
      obtain ⟨⟨p, p', hp, hb⟩, hnext⟩ := List.forall_mem_cons.mp hrows
      obtain ⟨w, kind, us, rfl, hw, hk, hin⟩ := row_of_declOf (fun _ => List.mem_append_left _) hb hp
      rw [List.flatten_cons, List.append_assoc, List.append_assoc]
      exact .setter hw hk hin (ih hnext)

/-- A declaration alone is in such a row. -/
theorem Decls.single {late : Bool} {kind : NodeKind} {us : List Tree} (h : Decls late [.node kind us]) : IsInside kind us := by
  have hsame : ∀ {w k vs rest}, [.node kind us] = leavesFor w ++ .node k vs :: rest → (kind, us) = (k, vs) := by
    intro w k vs rest h
    simpa using (congrArg (List.head? ∘ constructs) h)
  generalize hts : [Tree.node kind us] = ts at h
  cases h with
  | none => cases hts
  | setter _ _ hin | other _ _ hin _ =>
    cases hsame hts
    exact hin

/-- A row is cut among the trivia in front of its first declaration or behind that declaration. -/
theorem cut_row {w : List Token} {kind : NodeKind} {us ts before after : List Tree}
    (h : leavesFor w ++ .node kind us :: ts = before ++ after) :
    (∃ w₁ w₂, w = w₁ ++ w₂ ∧ before = leavesFor w₁ ∧ after = leavesFor w₂ ++ .node kind us :: ts) ∨
      ∃ rest, before = leavesFor w ++ .node kind us :: rest ∧ ts = rest ++ after := by
  induction w generalizing before with
  | nil =>
    cases before with
    | nil => exact .inl ⟨[], [], rfl, rfl, h.symm⟩
    | cons b before =>
      obtain ⟨rfl, hts⟩ := List.cons.inj h
      exact .inr ⟨before, rfl, hts⟩
  | cons t w ih =>
    cases before with
    | nil => exact .inl ⟨[], t :: w, rfl, rfl, h.symm⟩
    | cons b before =>
      obtain ⟨rfl, hrest⟩ := List.cons.inj h
      rcases ih hrest with ⟨w₁, w₂, rfl, rfl, hafter⟩ | ⟨rest, rfl, hts⟩
      · exact .inl ⟨t :: w₁, w₂, rfl, rfl, hafter⟩
      · exact .inr ⟨rest, rfl, hts⟩

/-- A text can be cut wherever a row of declarations is. -/
theorem Decls.closed {late : Bool} {before after : List Tree} (h : Decls late (before ++ after)) : Token.Closed (tokensOf before) := by
  generalize hts : before ++ after = ts at h
  have hrow : ∀ {w kind us rest}, Token.AllTrivia w → IsInside kind us → Token.Closed (tokensOf rest) →
      Token.Closed (tokensOf (leavesFor w ++ .node kind us :: rest)) := by
    intro w kind us rest hw hin hrest
    rw [tokensOf_append, tokensOf_cons, Tree.tokens_node, tokensOf_trivia hw]
    exact hw.closed.append (hin.closed.append hrest)
  induction h generalizing before with
  | none =>
    rw [(List.append_eq_nil_iff.mp hts).1]
    exact .nil
  | setter hw _ hin _ ih | other hw _ hin _ ih =>
    rcases cut_row hts.symm with ⟨w₁, w₂, rfl, rfl, -⟩ | ⟨rest, rfl, hrest⟩
    · have hw₁ : Token.AllTrivia w₁ := fun t ht => hw t (List.mem_append_left _ ht)
      rw [tokensOf_trivia hw₁]
      exact hw₁.closed
    · exact hrow hw hin (ih hrest.symm)

/-- A setter can be put in where only setters come before. -/
theorem Decls.insert {before after : List Tree} (h : Decls false (before ++ after))
    (hbefore : ∀ c ∈ constructs before, c.1 ∈ Form.setterKinds) {kind : NodeKind} (hk : kind ∈ Form.setterKinds) {us : List Tree}
    (hin : IsInside kind us) : Decls false (before ++ .node kind us :: after) := by
  have hput : ∀ {w₁ after}, Token.AllTrivia w₁ → Decls false after → Decls false (leavesFor w₁ ++ .node kind us :: after) :=
    fun hw hafter => .setter hw hk hin hafter
  generalize hlate : false = late, hts : before ++ after = ts at h
  induction h generalizing before with
  | none =>
    obtain ⟨rfl, rfl⟩ := List.append_eq_nil_iff.mp hts
    subst hlate
    exact hput .nil (.none false)
  | setter hw hkind hinside hrest ih =>
    rcases cut_row hts.symm with ⟨w₁, w₂, rfl, rfl, rfl⟩ | ⟨rest, rfl, hrest⟩
    · obtain ⟨hw₁, hw₂⟩ := List.forall_mem_append.mp hw
      exact hput hw₁ (.setter hw₂ hkind hinside hrest)
    · have hmem : ∀ c ∈ constructs rest, c.1 ∈ Form.setterKinds := fun c hc => hbefore c (by simp [hc])
      rw [List.append_assoc]
      exact .setter hw hkind hinside (ih hmem rfl hrest.symm)
  | @other late w k vs ts hw hkind hinside hrest =>
    rcases cut_row hts.symm with ⟨w₁, w₂, rfl, rfl, rfl⟩ | ⟨rest, rfl, -⟩
    · obtain ⟨hw₁, hw₂⟩ := List.forall_mem_append.mp hw
      subst hlate
      exact hput hw₁ (.other hw₂ hkind hinside hrest)
    · have hdisjoint : ∀ kind ∈ Form.otherKinds, kind ∉ Form.setterKinds := by decide
      exact absurd (hbefore (k, vs) (by simp)) (hdisjoint k hkind)

end Grammar

end QueryStubs
