import QueryStubs.Proofs.Faultless.Made
import QueryStubs.Proofs.Reader.Source
import QueryStubs.Proofs.Scan.Tiling
import QueryStubs.Proofs.Written.Spelled

/-!
# Trees that can be built again

The trees that were built of a form in one source can be built of it in every other source that has their tokens, whatever stands around them
(`Form.Builds.spells`). This is so for solid forms: those that ask nothing of what follows, and whose nodes hold one token at least, since
without any the trivia in front of a node would have no place.

So a node can be exchanged in them: if all nodes of its kind are of one form, every node of this form can stand in its place
(`Form.Builds.exchange`).
-/

namespace QueryStubs

open Grammar

namespace Grammar

/-! ## What is left -/

/-- The tokens that are not taken yet. -/
def Outlook.left (o : Outlook) : List Token := o.ahead.flatMap Lexeme.tokens ++ o.tail

/-- Trivia that are placed are those that were left first. -/
theorem Outlook.left_placed (o : Outlook) : o.left = o.trivia ++ o.placed.left := by
  obtain ⟨_ | ⟨l, ls⟩, tail, reached⟩ := o <;> simp [left, placed, trivia, Lexeme.tokens, Lexeme.bare]

/-- An outlook on tokens that the scanner gave. -/
structure Outlook.Scanned (o : Outlook) : Prop where
  lexical : o.Lexical
  names : ∀ t ∈ o.left, t.kind ≠ .keyword

/-- The tokens of a lexeme are those of its leaves. -/
theorem tokensOf_lexeme {l : Lexeme} (h : ∀ t ∈ l.tokens, t.kind ≠ .keyword) :
    tokensOf (leavesFor l.lead ++ [.leaf l.token]) = l.tokens := by
  have hleaves : leavesFor l.lead ++ [.leaf l.token] = leavesFor l.tokens := by simp [leavesFor, Lexeme.tokens]
  rw [hleaves, tokensOf_leavesFor h]

/-- What a form builds trees of are the tokens that were left and are left no more. -/
theorem Form.Builds.left {f : Form} {o o' : Outlook} {ts : List Tree} (h : f.Builds o ts o') (hk : ∀ t ∈ o.left, t.kind ≠ .keyword) :
    o.left = tokensOf ts ++ o'.left := by
  have hhead : ∀ {l : Lexeme} {ls tail reached}, (∀ t ∈ Outlook.left ⟨l :: ls, tail, reached⟩, t.kind ≠ .keyword) →
      ∀ t ∈ l.tokens, t.kind ≠ .keyword := by
    intro l ls tail reached h t ht
    exact h t (List.mem_append_left _ (List.mem_append_left _ ht))
  induction h with
  | nothing | manyNil => rfl
  | @one p l ls tail reached =>
    rw [tokensOf_lexeme (hhead hk)]
    simp [Outlook.left]
  | @keyword words l ls tail reached hn =>
    -- The leaf is a keyword, but the scanner gave a name.
    have hword : l.token.asKeyword.asScanned = l.token := by
      have hkind : l.token.kind = .name := hn
      rw [Token.asScanned, if_pos (by rfl), Token.ofName, Token.text_asKeyword, ← hkind]
    have hleaves := tokensOf_lexeme (hhead hk)
    rw [tokensOf_append, tokensOf_cons, Tree.tokens_leaf, tokensOf_nil, hword]
    rw [tokensOf_leavesFor fun t ht => hhead hk t (List.mem_append_left _ ht)]
    simp [Outlook.left, Lexeme.tokens]
  | @prefixed first colon last ls tail reached hf hc hct hl hlt =>
    have hcolon : colon.lead = [] := List.isEmpty_iff.mp hct
    have hlast : last.lead = [] := List.isEmpty_iff.mp hlt
    have hplain : ∀ {t : Token}, t.kind = .name ∨ t.kind = .colon → t.asScanned = t := by
      rintro t (h | h) <;> simp [Token.asScanned, h]
    rw [tokensOf_append, tokensOf_leavesFor fun t ht => hhead hk t (List.mem_append_left _ ht)]
    simp only [tokensOf_cons, Tree.tokens_leaf, tokensOf_nil, hplain (.inl hf), hplain (.inr hc), hplain (.inl hl)]
    simp [Outlook.left, Lexeme.tokens, hcolon, hlast]
  | @run p run ls tail reached =>
    rw [tokensOf_leavesFor fun t ht => hk t (by simp only [Outlook.left, List.flatMap_append, List.mem_append]; exact .inl (.inl ht))]
    simp [Outlook.left]
  | seq _ _ ih ih' | manyCons _ _ ih ih' =>
    have hf := ih hk
    rw [hf] at hk
    rw [hf, ih' fun t ht => hk t (List.mem_append_right _ ht), tokensOf_append, List.append_assoc]
  | first _ ih | second _ ih | guard _ _ ih => exact ih hk
  | @node kind f o o' ts _ ih =>
    rw [o.left_placed] at hk ⊢
    rw [ih fun t ht => hk t (List.mem_append_right _ ht), tokensOf_append,
      tokensOf_leavesFor fun t ht => hk t (List.mem_append_left _ ht)]
    simp
  | @leadNode kind f o o' ts _ ih =>
    rw [ih hk]
    simp
  | trivia o =>
    rw [o.left_placed] at hk ⊢
    rw [tokensOf_leavesFor fun t ht => hk t (List.mem_append_left _ ht)]

/-- What a form leaves are tokens that the scanner gave if it was given such. -/
theorem Form.Builds.scanned {f : Form} {o o' : Outlook} {ts : List Tree} (h : f.Builds o ts o') (ho : o.Scanned) : o'.Scanned :=
  ⟨h.lexical ho.lexical, fun t ht => ho.names t (h.left ho.names ▸ List.mem_append_right _ ht)⟩

/-- Placing trivia leaves tokens that the scanner gave. -/
theorem Outlook.Scanned.placed {o : Outlook} (h : o.Scanned) : o.placed.Scanned :=
  ⟨h.lexical.placed, fun t ht => h.names t (o.left_placed ▸ List.mem_append_right _ ht)⟩

/-- Where the reading of a source starts, the tokens of the source are left. -/
theorem start_scanned (source : String) : (Cursor.start source).outlook.Scanned ∧ (Cursor.start source).outlook.left = Token.ofSource source := by
  have hleft : (Cursor.start source).outlook.left = Token.ofSource source := start_left source
  exact ⟨⟨start_lexical source, fun t ht => Token.ne_keyword_of_scan _ t (hleft ▸ ht)⟩, hleft⟩

/-! ## Solid forms -/

/-- Whether a form can be told to take a token at least. -/
def Form.eager : Form → Bool
  | .one _ | .keyword _ | .prefixed => true
  | .seq f g => f.eager || g.eager
  | .either f g => f.eager && g.eager
  | .node _ f | .leadNode _ f | .guard _ f => f.eager
  | .nothing | .run _ | .many _ | .trivia => false

/-- Whether a form asks nothing of what follows and has a token in every node. -/
def Form.solid : Form → Bool
  | .nothing | .one _ | .keyword _ | .prefixed | .run _ => true
  | .seq f g | .either f g => f.solid && g.solid
  | .many f | .leadNode _ f => f.solid
  | .node _ f => f.eager && f.solid
  | .guard _ _ | .trivia => false

/-- An eager form builds trees of some tokens. -/
theorem Form.Builds.tokens_ne_nil {f : Form} {o o' : Outlook} {ts : List Tree} (h : f.Builds o ts o') (hf : f.eager = true) :
    tokensOf ts ≠ [] := by
  induction h with
  | nothing | run | manyNil | manyCons | trivia => cases hf
  | one | keyword | prefixed => simp
  | seq _ _ ih ih' =>
    rw [tokensOf_append]
    rcases Bool.or_eq_true_iff.mp hf with hf | hf
    · exact List.append_ne_nil_of_left_ne_nil (ih hf) _
    · exact List.append_ne_nil_of_right_ne_nil _ (ih' hf)
  | first _ ih => exact ih (Bool.and_eq_true_iff.mp hf).1
  | second _ ih => exact ih (Bool.and_eq_true_iff.mp hf).2
  | node _ ih =>
    rw [tokensOf_append]
    exact List.append_ne_nil_of_right_ne_nil _ (by simpa using ih hf)
  | leadNode _ ih => simpa using ih hf
  | guard _ _ ih => exact ih hf

/-- Where no trivia come next, what is built of a token at least starts with one that is no trivia. -/
theorem Form.Builds.fronted {f : Form} {o o' : Outlook} {ts : List Tree} (h : f.Builds o ts o') (ho : o.Scanned) (hn : o.trivia = [])
    (hts : tokensOf ts ≠ []) : Fronted ts := by
  have hleft := h.left ho.names
  cases ht : tokensOf ts with
  | nil => exact absurd ht hts
  | cons t us =>
    refine ⟨t, us, ht, ?_⟩
    obtain ⟨_ | ⟨l, ls⟩, tail, reached⟩ := o
    · rw [ht, Outlook.left, show tail = [] from hn] at hleft
      cases hleft
    · rw [ht, Outlook.left, List.flatMap_cons, Lexeme.tokens, show l.lead = [] from hn] at hleft
      rw [← (List.cons.inj hleft).1]
      exact (ho.lexical.tokens l (List.mem_cons_self ..)).1

/-- What was built of a solid form can be built wherever its tokens are. -/
theorem Form.Builds.spells {f : Form} {o o' : Outlook} {ts : List Tree} (h : f.Builds o ts o') (hf : f.solid = true) (ho : o.Scanned) :
    Spells f ts := by
  induction h with
  | nothing => exact .nothing
  | @one p l ls tail reached hp =>
    have hl := ho.lexical.tokens l (List.mem_cons_self ..)
    refine .one_behind (ho.lexical.leads l (List.mem_cons_self ..)) hl.1 (ho.names _ ?_) hp
    simp [Outlook.left, Lexeme.tokens]
  | @keyword words l ls tail reached _ hw => exact .keyword_behind (ho.lexical.leads l (List.mem_cons_self ..)) hw
  | @prefixed l colon last ls tail reached hl hc _ hlast =>
    exact .prefixed_behind (ho.lexical.leads l (List.mem_cons_self ..)) hl hc hlast
  | @run p run ls tail reached hp =>
    refine .run (fun l hl => ⟨?_, ?_, ho.names _ ?_⟩) hp
    · exact ho.lexical.leads l (List.mem_append_left _ hl)
    · exact (ho.lexical.tokens l (List.mem_append_left _ hl)).1
    · simp only [Outlook.left, List.mem_append, List.mem_flatMap]
      exact .inl ⟨l, .inl hl, List.mem_append_right _ (List.mem_singleton.mpr rfl)⟩
  | seq hb _ ih ih' =>
    obtain ⟨hf, hg⟩ := Bool.and_eq_true_iff.mp hf
    exact (ih hf ho).seq (ih' hg (hb.scanned ho))
  | first _ ih => exact (ih (Bool.and_eq_true_iff.mp hf).1 ho).first
  | second _ ih => exact (ih (Bool.and_eq_true_iff.mp hf).2 ho).second
  | manyNil => exact .none
  | manyCons hb _ ih ih' => exact (ih hf ho).manyCons (ih' hf (hb.scanned ho))
  | @node kind f o o' ts hb ih =>
    obtain ⟨heager, hsolid⟩ := Bool.and_eq_true_iff.mp hf
    have hfront := hb.fronted ho.placed o.trivia_placed (hb.tokens_ne_nil heager)
    exact .node_behind ho.lexical.trivia kind (ih hsolid ho.placed) hfront
  | leadNode _ ih => exact (ih hf ho).leadNode _
  | guard | trivia => cases hf

/-! ## Exchanging nodes -/

/-- The trees were built of the form somewhere in a source where no trivia come first. -/
def Form.Built (f : Form) (ts : List Tree) : Prop := ∃ o o', o.Scanned ∧ o.trivia = [] ∧ f.Builds o ts o'

/-- What was built of an eager and solid form can be built wherever its tokens are, and it starts with one that is no trivia. -/
theorem Form.Built.spells {f : Form} {ts : List Tree} (h : f.Built ts) (heager : f.eager = true) (hsolid : f.solid = true) :
    Spells f ts ∧ Fronted ts := by
  obtain ⟨o, o', ho, hn, hb⟩ := h
  exact ⟨hb.spells hsolid ho, hb.fronted ho hn (hb.tokens_ne_nil heager)⟩

/-- The nodes of a kind that a form builds, but for those inside other nodes, are all of one form. -/
def Form.Sole : Form → NodeKind → Form → Prop
  | .seq f f', kind, g | .either f f', kind, g => f.Sole kind g ∧ f'.Sole kind g
  | .many f, kind, g | .guard _ f, kind, g => f.Sole kind g
  | .node k f, kind, g => k = kind → f = g
  | .leadNode k _, kind, _ => k ≠ kind
  | .nothing, _, _ | .one _, _, _ | .keyword _, _, _ | .prefixed, _, _ | .run _, _, _ | .trivia, _, _ => True

/-- A node in two rows of trees is in one of them. -/
theorem append_eq_node {ts us A B : List Tree} {t : Tree} (h : ts ++ us = A ++ t :: B) :
    (∃ C, ts = A ++ t :: C ∧ B = C ++ us) ∨ ∃ C, us = C ++ t :: B ∧ A = ts ++ C := by
  rcases List.append_eq_append_iff.mp h with ⟨C, hA, hus⟩ | ⟨C, hts, htB⟩
  · exact .inr ⟨C, hus, hA⟩
  · cases C with
    | nil => exact .inr ⟨[], htB.symm, by simpa using hts.symm⟩
    | cons u C =>
      obtain ⟨rfl, rfl⟩ := List.cons.inj htB
      exact .inl ⟨C, hts, rfl⟩

/-- Behind leaves there is one node only. -/
theorem leavesFor_append_node {w : List Token} {k kind : NodeKind} {vs us A B : List Tree}
    (h : leavesFor w ++ [.node k vs] = A ++ .node kind us :: B) : A = leavesFor w ∧ k = kind ∧ vs = us ∧ B = [] := by
  rcases append_eq_node h with ⟨C, hw, -⟩ | ⟨C, hC, rfl⟩
  · have hconstructs := congrArg Tree.constructs hw
    simp at hconstructs
  · cases C with
    | nil =>
      obtain ⟨hnode, hB⟩ := List.cons.inj hC
      cases hnode
      exact ⟨List.append_nil _, rfl, rfl, hB.symm⟩
    | cons c C => simp at hC

/-- There is no node among leaves. -/
theorem constructs_ne_nil {ts A us B : List Tree} {kind : NodeKind} (h : ts = A ++ .node kind us :: B) : Tree.constructs ts ≠ [] := by
  rw [h]
  simp

/-- In what was built of a solid form every node of a form can stand in the place of another, if all nodes of the kind are of this form. -/
theorem Form.Builds.exchange {f g : Form} {kind : NodeKind} {o o' : Outlook} {ts A us B : List Tree} (h : f.Builds o ts o')
    (hf : f.solid = true) (hs : f.Sole kind g) (ho : o.Scanned) (hts : ts = A ++ .node kind us :: B) :
    g.Built us ∧ ∀ vs, Spells g vs → Fronted vs → Spells f (A ++ .node kind vs :: B) := by
  induction h generalizing A B with
  | nothing | one | keyword | prefixed | run | manyNil => exact absurd (by simp) (constructs_ne_nil hts)
  | seq hb hb' ih ih' =>
    obtain ⟨hf₁, hf₂⟩ := Bool.and_eq_true_iff.mp hf
    rcases append_eq_node hts with ⟨C, hC, rfl⟩ | ⟨C, hC, rfl⟩
    · obtain ⟨hus, hall⟩ := ih hf₁ hs.1 ho hC
      refine ⟨hus, fun vs hv hfront => ((hall vs hv hfront).seq (hb'.spells hf₂ (hb.scanned ho))).of_eq ?_⟩
      rw [List.append_assoc, List.cons_append]
    · obtain ⟨hus, hall⟩ := ih' hf₂ hs.2 (hb.scanned ho) hC
      refine ⟨hus, fun vs hv hfront => ((hb.spells hf₁ ho).seq (hall vs hv hfront)).of_eq ?_⟩
      rw [List.append_assoc]
  | manyCons hb hb' ih ih' =>
    rcases append_eq_node hts with ⟨C, hC, rfl⟩ | ⟨C, hC, rfl⟩
    · obtain ⟨hus, hall⟩ := ih hf hs ho hC
      refine ⟨hus, fun vs hv hfront => ((hall vs hv hfront).manyCons (hb'.spells hf (hb.scanned ho))).of_eq ?_⟩
      rw [List.append_assoc, List.cons_append]
    · obtain ⟨hus, hall⟩ := ih' hf hs (hb.scanned ho) hC
      refine ⟨hus, fun vs hv hfront => ((hb.spells (f := _) hf ho).manyCons (hall vs hv hfront)).of_eq ?_⟩
      rw [List.append_assoc]
  | first _ ih =>
    obtain ⟨hus, hall⟩ := ih (Bool.and_eq_true_iff.mp hf).1 hs.1 ho hts
    exact ⟨hus, fun vs hv hfront => (hall vs hv hfront).first⟩
  | second _ ih =>
    obtain ⟨hus, hall⟩ := ih (Bool.and_eq_true_iff.mp hf).2 hs.2 ho hts
    exact ⟨hus, fun vs hv hfront => (hall vs hv hfront).second⟩
  | @node k f o o' us hb =>
    obtain ⟨rfl, rfl, rfl, rfl⟩ := leavesFor_append_node hts
    obtain rfl : f = g := hs rfl
    exact ⟨⟨_, _, ho.placed, o.trivia_placed, hb⟩, fun vs hv hfront => .node_behind ho.lexical.trivia _ hv hfront⟩
  | leadNode =>
    obtain ⟨-, rfl, -, -⟩ := leavesFor_append_node (w := []) hts
    exact absurd rfl hs
  | guard | trivia => cases hf

end Grammar

end QueryStubs
