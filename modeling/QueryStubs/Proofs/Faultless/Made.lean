import QueryStubs.Proofs.Syntax.Grammar
import QueryStubs.Proofs.Syntax.Lexical
import QueryStubs.Proofs.Views.Rows

/-!
# The trees of a form

`Form.Makes f ts` says what the row `ts` looks like that `f` builds, whatever lexemes it was built of: which leaves and which nodes it
has, and that the trivia in front of a node stand before it (`Form.Builds.makes`). `Form.kinds` lists the kinds of the nodes that a form
may build at all (`Form.Makes.kinds`).
-/

namespace QueryStubs

open Grammar (leavesFor)

/-- A row of trees that does not start with trivia. -/
def Tree.Bare (ts : List Tree) : Prop := ∀ t us, ts = .leaf t :: us → t.isTrivia = false

theorem Tree.Bare.nil : Bare [] := by
  intro t us he
  cases he

theorem Tree.Bare.leaf {t : Token} {us : List Tree} (h : t.isTrivia = false) : Bare (.leaf t :: us) := by
  intro u vs he
  cases he
  exact h

theorem Tree.Bare.node {kind : NodeKind} {us vs : List Tree} : Bare (.node kind us :: vs) := by
  intro t ts he
  cases he

/-- No trivia stand in front of such a row. -/
theorem Tree.Bare.eq_nil {w : List Token} {us : List Tree} (h : Bare (leavesFor w ++ us)) (hw : Token.AllTrivia w) : w = [] := by
  cases w with
  | nil => rfl
  | cons t w =>
    have htrivia := hw t (List.mem_cons_self ..)
    rw [h t _ rfl] at htrivia
    cases htrivia

/-! ## The tokens that are meant -/

/-- A token of a kind that is no trivia is none. -/
theorem Token.isTrivia_eq_false {t : Token} {kind : TokenKind} (ht : t.kind = kind) (hk : kind.isTrivia = false) : t.isTrivia = false := by
  rw [isTrivia, ht, hk]

/-- No token of such a kind is among trivia. -/
theorem Token.AllTrivia.kind_ne {w : List Token} (hw : AllTrivia w) {kind : TokenKind} (hk : kind.isTrivia = false) :
    ∀ t ∈ w, t.kind ≠ kind := by
  intro t ht he
  have htrivia := hw t ht
  rw [isTrivia_eq_false he hk] at htrivia
  cases htrivia

/-- The tokens of a row of trees that are no trivia. -/
def Tree.meantOf (ts : List Tree) : List Token := (leavesOf ts).filter (!·.isTrivia)

@[simp] theorem Tree.meantOf_append (ts us : List Tree) : meantOf (ts ++ us) = meantOf ts ++ meantOf us := by
  simp [meantOf]

@[simp] theorem Tree.meantOf_nil : meantOf [] = [] := rfl

@[simp] theorem Tree.meantOf_node (kind : NodeKind) (us ts : List Tree) : meantOf (.node kind us :: ts) = meantOf us ++ meantOf ts := by
  simp [meantOf, leavesOf]

theorem Tree.meantOf_leaf {t : Token} (h : t.isTrivia = false) (ts : List Tree) : meantOf (.leaf t :: ts) = t :: meantOf ts := by
  simp [meantOf, leavesOf, h]

/-- Of some leaves those are meant that are no trivia. -/
theorem Tree.meantOf_leavesFor (w : List Token) : meantOf (leavesFor w) = w.filter (!·.isTrivia) := by
  rw [meantOf, leavesFor, leavesOf_map_leaf]

/-- Trivia are not meant. -/
theorem Tree.meantOf_trivia {w : List Token} (h : Token.AllTrivia w) : meantOf (leavesFor w) = [] := by
  rw [meantOf_leavesFor]
  exact List.filter_eq_nil_iff.mpr fun t ht => by simp [h t ht]

namespace Grammar

/-- A row of trees that a form may build. -/
def Form.Makes : Form → List Tree → Prop
  | .nothing, ts => ts = []
  | .one p, ts => ∃ w t, Token.AllTrivia w ∧ p t.kind = true ∧ t.MarkSpelled ∧ ts = leavesFor w ++ [.leaf t]
  | .keyword words, ts => ∃ w t, Token.AllTrivia w ∧ t.kind = .keyword ∧ t.text ∈ words ∧ ts = leavesFor w ++ [.leaf t]
  | .prefixed, ts => ∃ w t v u, Token.AllTrivia w ∧ t.kind = .name ∧ v.kind = .colon ∧ u.kind = .name ∧
      ts = leavesFor w ++ [.leaf t, .leaf v, .leaf u]
  | .run p, ts => ∃ w, p ((w.filter (!·.isTrivia)).map (·.kind)) ∧ ts = leavesFor w
  | .seq f g, ts => ∃ us vs, ts = us ++ vs ∧ f.Makes us ∧ g.Makes vs
  | .either f g, ts => f.Makes ts ∨ g.Makes ts
  | .many f, ts => ∃ rows : List (List Tree), ts = rows.flatten ∧ ∀ row ∈ rows, f.Makes row
  | .node kind f, ts => ∃ w us, Token.AllTrivia w ∧ ts = leavesFor w ++ [.node kind us] ∧ f.Makes us ∧ Tree.Bare us
  | .leadNode kind f, ts => ∃ us, ts = [.node kind us] ∧ f.Makes us
  | .guard _ f, ts => f.Makes ts
  | .trivia, ts => ∃ w, Token.AllTrivia w ∧ ts = leavesFor w

/-- The kinds of the nodes that a form may build. -/
def Form.kinds : Form → List NodeKind
  | .seq f g | .either f g => f.kinds ++ g.kinds
  | .many f | .guard _ f => f.kinds
  | .node kind f | .leadNode kind f => kind :: f.kinds
  | .nothing | .one _ | .keyword _ | .prefixed | .run _ | .trivia => []

/-- Where no trivia come next, a form builds a row that starts with none, and if it builds nothing, none come next still. -/
theorem Form.Builds.bare {f : Form} {o o' : Outlook} {ts : List Tree} (h : f.Builds o ts o') (ho : o.Lexical)
    (hn : o.trivia = []) : Tree.Bare ts ∧ (ts = [] → o'.trivia = []) := by
  have hsome : ∀ {t : Tree} {us : List Tree} {P : Prop}, t :: us = [] → P := fun h => absurd h (List.cons_ne_nil _ _)
  induction h with
  | nothing | manyNil => exact ⟨.nil, fun _ => hn⟩
  | @one p l ls tail reached =>
    rw [show l.lead = [] from hn]
    exact ⟨.leaf (ho.tokens l (List.mem_cons_self ..)).1, hsome⟩
  | @keyword words l ls tail reached =>
    rw [show l.lead = [] from hn]
    exact ⟨.leaf rfl, hsome⟩
  | @prefixed l colon last ls tail reached hf =>
    rw [show l.lead = [] from hn]
    exact ⟨.leaf (ho.tokens l (List.mem_cons_self ..)).1, hsome⟩
  | @run p run ls tail reached =>
    cases run with
    | nil => exact ⟨.nil, fun _ => hn⟩
    | cons l run =>
      have hl : l.lead = [] := hn
      rw [List.flatMap_cons, Lexeme.tokens, hl]
      exact ⟨.leaf (ho.tokens l (List.mem_cons_self ..)).1, hsome⟩
  | @seq f g o o' o'' ts us hf _ ih ih' | @manyCons f o o' o'' ts us hf _ ih ih' =>
    obtain ⟨h1, h2⟩ := ih ho hn
    cases ts with
    | nil => exact ih' (hf.lexical ho) (h2 rfl)
    | cons t ts =>
      refine ⟨fun u vs he => ?_, hsome⟩
      cases he
      exact h1 u ts rfl
  | first _ ih | second _ ih | guard _ _ ih => exact ih ho hn
  | leadNode => exact ⟨.node, hsome⟩
  | node =>
    rw [hn]
    exact ⟨.node, hsome⟩
  | trivia o =>
    rw [hn]
    exact ⟨.nil, fun _ => o.trivia_placed⟩

/-- The tokens of lexemes that are no trivia are the lexemes. -/
theorem filter_tokens {run ls : List Lexeme} {tail : List Token} {reached : Nat} (ho : Outlook.Lexical ⟨run ++ ls, tail, reached⟩) :
    (run.flatMap Lexeme.tokens).filter (!·.isTrivia) = run.map (·.token) := by
  induction run with
  | nil => rfl
  | cons l run ih =>
    have hlead : l.lead.filter (!·.isTrivia) = [] :=
      List.filter_eq_nil_iff.mpr fun t ht => by simp [ho.leads l (List.mem_cons_self ..) t ht]
    have htoken := (ho.tokens l (List.mem_cons_self ..)).1
    rw [List.flatMap_cons, List.filter_append, ih ho.tail_cons, Lexeme.tokens, List.filter_append, hlead]
    simp [htoken]

/-- What a form builds it may build. -/
theorem Form.Builds.makes {f : Form} {o o' : Outlook} {ts : List Tree} (h : f.Builds o ts o') (ho : o.Lexical) : f.Makes ts := by
  induction h with
  | nothing => rfl
  | @one p l ls tail reached hp =>
    exact ⟨l.lead, l.token, ho.leads l (List.mem_cons_self ..), hp, (ho.tokens l (List.mem_cons_self ..)).2, rfl⟩
  | @keyword words l ls tail reached _ hw =>
    exact ⟨l.lead, l.token.asKeyword, ho.leads l (List.mem_cons_self ..), rfl, hw, rfl⟩
  | @prefixed l colon last ls tail reached hf hc _ hl =>
    exact ⟨l.lead, _, _, _, ho.leads l (List.mem_cons_self ..), hf, hc, hl, rfl⟩
  | @run p run ls tail reached hp =>
    refine ⟨_, ?_, rfl⟩
    rw [filter_tokens ho, List.map_map]
    exact hp
  | seq hf _ ih ih' => exact ⟨_, _, rfl, ih ho, ih' (hf.lexical ho)⟩
  | first _ ih => exact .inl (ih ho)
  | second _ ih => exact .inr (ih ho)
  | manyNil => exact ⟨[], rfl, List.forall_mem_nil _⟩
  | @manyCons f o o' o'' ts us hf _ ih ih' =>
    obtain ⟨rows, hus, hrows⟩ := ih' (hf.lexical ho)
    exact ⟨ts :: rows, by rw [hus, List.flatten_cons], List.forall_mem_cons.mpr ⟨ih ho, hrows⟩⟩
  | @node kind f o o' ts hf ih =>
    exact ⟨o.trivia, ts, ho.trivia, rfl, ih ho.placed, (hf.bare ho.placed o.trivia_placed).1⟩
  | leadNode _ ih => exact ⟨_, rfl, ih ho⟩
  | guard _ _ ih => exact ih ho
  | trivia => exact ⟨_, ho.trivia, rfl⟩

/-- A form builds nodes of its kinds only. -/
theorem Form.Makes.kinds {f : Form} {ts : List Tree} (h : f.Makes ts) : ∀ kind ∈ Tree.kindsOf ts, kind ∈ f.kinds := by
  induction f generalizing ts with
  | nothing =>
    cases h
    exact List.forall_mem_nil _
  | one p =>
    obtain ⟨w, t, -, -, -, rfl⟩ := h
    simp [Tree.kindsOf, Tree.kinds]
  | keyword words =>
    obtain ⟨w, t, -, -, -, rfl⟩ := h
    simp [Tree.kindsOf, Tree.kinds]
  | prefixed =>
    obtain ⟨w, t, v, u, -, -, -, -, rfl⟩ := h
    simp [Tree.kindsOf, Tree.kinds]
  | run p =>
    obtain ⟨w, -, rfl⟩ := h
    simp
  | seq f g ih ih' =>
    obtain ⟨us, vs, rfl, hf, hg⟩ := h
    intro kind hk
    rw [Tree.kindsOf_append] at hk
    rcases List.mem_append.mp hk with hk | hk
    · exact List.mem_append_left _ (ih hf kind hk)
    · exact List.mem_append_right _ (ih' hg kind hk)
  | either f g ih ih' =>
    intro kind hk
    rcases h with h | h
    · exact List.mem_append_left _ (ih h kind hk)
    · exact List.mem_append_right _ (ih' h kind hk)
  | many f ih =>
    obtain ⟨rows, rfl, hrows⟩ := h
    induction rows with
    | nil => exact List.forall_mem_nil _
    | cons row rows ihr =>
      intro kind hk
      obtain ⟨hrow, hrows⟩ := List.forall_mem_cons.mp hrows
      rw [List.flatten_cons, Tree.kindsOf_append] at hk
      rcases List.mem_append.mp hk with hk | hk
      · exact ih hrow kind hk
      · exact ihr hrows kind hk
  | node kind f ih =>
    obtain ⟨w, us, -, rfl, hf, -⟩ := h
    intro k hk
    simp only [Tree.kindsOf_append, Tree.kindsOf_leavesFor, List.nil_append, Tree.kindsOf, Tree.kinds_node, List.append_nil] at hk
    exact List.cons_subset_cons kind (fun k hk => ih hf k hk) hk
  | leadNode kind f ih =>
    obtain ⟨us, rfl, hf⟩ := h
    intro k hk
    simp only [Tree.kindsOf, Tree.kinds_node, List.append_nil] at hk
    exact List.cons_subset_cons kind (fun k hk => ih hf k hk) hk
  | guard T f ih => exact ih h
  | trivia =>
    obtain ⟨w, -, rfl⟩ := h
    simp

/-- A form without nodes makes a row without constructs. -/
theorem Form.Makes.flat {f : Form} {ts : List Tree} (h : f.Makes ts) (hf : f.kinds = []) : Tree.constructs ts = [] :=
  Tree.constructs_eq_nil (List.eq_nil_iff_forall_not_mem.mpr fun kind hk => by simpa [hf] using h.kinds kind hk)

/-- A node is the one construct of the row it is in. -/
theorem Form.Makes.node {kind : NodeKind} {f : Form} {ts : List Tree} (h : (Form.node kind f).Makes ts) :
    ∃ us, Tree.constructs ts = [(kind, us)] ∧ f.Makes us ∧ Tree.Bare us := by
  obtain ⟨w, us, -, rfl, hf, hb⟩ := h
  exact ⟨us, by simp, hf, hb⟩

/-- What is meant by a node is what is meant by its own row. -/
theorem Form.Makes.meant_node {kind : NodeKind} {f : Form} {ts us : List Tree} (h : (Form.node kind f).Makes ts)
    (hc : Tree.constructs ts = [(kind, us)]) : Tree.meantOf ts = Tree.meantOf us := by
  obtain ⟨w, vs, hw, rfl, -⟩ := h
  obtain rfl : vs = us := by simpa using hc
  simp [Tree.meantOf_trivia hw]

/-- A mark is one token. -/
theorem Form.Makes.meant_mark {kind : TokenKind} {ts : List Tree} (h : (Form.mark kind).Makes ts) (hk : kind.isTrivia = false) :
    ∃ t, t.kind = kind ∧ Tree.meantOf ts = [t] := by
  obtain ⟨w, t, hw, ht, -, rfl⟩ := h
  have ht : t.kind = kind := of_decide_eq_true ht
  exact ⟨t, ht, by simp [Tree.meantOf_trivia hw, Tree.meantOf_leaf (Token.isTrivia_eq_false ht hk)]⟩

/-- A keyword is one token. -/
theorem Form.Makes.meant_keyword {words : List String} {ts : List Tree} (h : (Form.keyword words).Makes ts) :
    ∃ t, t.kind = .keyword ∧ t.text ∈ words ∧ Tree.meantOf ts = [t] := by
  obtain ⟨w, t, hw, ht, hmem, rfl⟩ := h
  exact ⟨t, ht, hmem, by simp [Tree.meantOf_trivia hw, Tree.meantOf_leaf (Token.isTrivia_eq_false ht rfl)]⟩

/-- What may be left out makes a construct or none. -/
theorem Form.Makes.optional_node {kind : NodeKind} {f : Form} {ts : List Tree} (h : (Form.optional (.node kind f)).Makes ts) :
    Tree.constructs ts = [] ∨ ∃ us, Tree.constructs ts = [(kind, us)] ∧ f.Makes us ∧ Tree.Bare us := by
  rcases h with h | h
  · exact .inr h.node
  · cases h
    exact .inl rfl

end Grammar

end QueryStubs
