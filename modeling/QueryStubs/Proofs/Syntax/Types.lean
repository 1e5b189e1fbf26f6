import QueryStubs.Proofs.Syntax.Scans

/-!
# Reading sequence types

Which item type comes next is decided by the lexeme behind its first name: a colon that touches makes it the name of an atomic type, an
opening parenthesis a test. So a type must not be followed by one of the two, nor by a mark that would be its own (`EndsType`).
-/

namespace QueryStubs.Grammar

open QueryStubs

variable {S : Prop} {P : Outlook → Prop} {F : Option Token → Prop}

/-! ## Tests -/

/-- The next token is none of the marks that can follow an item type. -/
def NoMark (t : Option Token) : Prop := ¬ IsOf TokenKind.isOccurrence t

/-- What may follow an item type. -/
def EndsType (t : Option Token) : Prop := NoMark t ∧ NoColon t ∧ ¬ IsKind .parenOpen t

/-- A mark that follows an item type starts with what it is. -/
theorem occurrence_leads {G : Option Token → Prop} :
    (Form.node .occurrence (.one TokenKind.isOccurrence)).Leads G (IsOf TokenKind.isOccurrence) :=
  .node (.one fun t h => ⟨t, rfl, h⟩)

theorem occurrenceMark_reads : Reads S P occurrenceMark (fun _ => true) .occurrence NoMark := by
  refine .either (nextKind_head TokenKind.isOccurrence) (.node .occurrence (.take fun k h => ?_) fun o h => o.head_placed ▸ h.2)
    occurrence_leads (.pure rfl) (.nothing fun _ h => h)
  cases k <;> first | rfl | cases h

/-- A form that may be followed by a mark, read with the mark. -/
theorem marked_reads {r : Rule Bool} {f : Form} (h : Reads S P r id f fun _ => True) :
    Reads S P (r >>= fun b => if b = true then occurrenceMark >>= fun _ => pure true else pure false) id (.seq f .occurrence)
      NoMark :=
  .thenAlways h occurrenceMark_reads (.any _)

/-- Placing trivia does not change which kinds are ahead. -/
theorem Outlook.kindAt_placed {o : Outlook} {i : Nat} {kind : TokenKind} : o.placed.KindAt i kind ↔ o.KindAt i kind := by
  obtain ⟨_ | ⟨l, ls⟩, tail, reached⟩ := o
  · exact Iff.rfl
  · cases i <;> exact Iff.rfl

/-- Behind a word that is taken the next lexeme comes. -/
theorem kindAt_behind {words : List String} {o o' : Outlook} {ts : List Tree} {i : Nat} {kind : TokenKind}
    (hb : (Form.keyword words).Builds o ts o') : o'.KindAt i kind ↔ o.KindAt (i + 1) kind := by
  cases hb
  exact Iff.rfl

/-- A test: a word comes next and an opening parenthesis behind it. -/
def Outlook.Test (word : String) (o : Outlook) : Prop := IsWord word o.head ∧ o.KindAt 1 .parenOpen

theorem Outlook.Test.placed {word : String} {o : Outlook} (h : o.Test word) : o.placed.Test word :=
  ⟨o.head_placed ▸ h.1, Outlook.kindAt_placed.mpr h.2⟩

theorem emptyParens_reads (kind : NodeKind) (word : String) :
    Reads S (Outlook.Test word) (emptyParens kind) id (.emptyParens kind word) F := by
  refine .node kind (Q := Outlook.Test word) ?_ fun _ h => h.placed
  refine .andNext (Q := fun o => IsKind .parenOpen o.head) (F := fun _ => True)
    (.of_imp (.takeWord (P := fun _ => True)) fun _ h => ⟨trivial, h.1⟩) (fun o ts o' h hb => ?_) ?_ (.any _)
  · exact Outlook.kindAt_zero.mp ((kindAt_behind hb).mpr h.2)
  · refine .look (sees_head .parenOpen) fun b => .look (demand_keeps _ _) fun _ => ?_
    refine .andNext (Q := fun _ => True) (.of_imp (.takeMark (P := fun _ => True) rfl) fun _ h => ⟨trivial, h.1.1⟩)
      (fun _ _ _ _ _ => trivial) (expect_reads rfl _) (.any _)

theorem kindTest_reads : Reads S (fun o => ∃ word ∈ kindTestNames, o.Test word) kindTest id .kindTest F := by
  refine .node .kindTest (Q := fun o => ∃ word ∈ kindTestNames, o.Test word) ?_ fun o ⟨word, hm, h⟩ => ⟨word, hm, h.placed⟩
  refine .andNext (Q := fun o => IsKind .parenOpen o.head) (F := fun _ => True) (.of_imp .takeKeyword fun o ⟨word, hm, h⟩ => ?_)
    (fun o ts o' ⟨_, _, h⟩ hb => Outlook.kindAt_zero.mp ((kindAt_behind hb).mpr h.2)) (balanced_reads rfl rfl rfl (by decide) _) (.any _)
  obtain ⟨t, ht, hk, rfl⟩ := h.1.token
  exact ⟨t, ht, hk, hm⟩

/-- A form that a word starts and an opening parenthesis behind it. -/
theorem test_of_builds {words : List String} {g : Form} {o o' : Outlook} {ts : List Tree}
    (hb : (Form.seq (.keyword words) g).Builds o ts o') (hg : g.Leads (fun _ => True) (IsKind .parenOpen)) :
    ∃ word ∈ words, o.Test word := by
  cases hb with
  | seq hk hrest =>
    have hp := (kindAt_behind hk).mp (Outlook.kindAt_zero.mpr (hg _ _ _ hrest trivial))
    cases hk with
    | keyword ls tail reached hn hw => exact ⟨_, hw, isWord_some.mpr ⟨hn, rfl⟩, hp⟩

/-- So is the inside of a node. -/
theorem test_of_placed {words : List String} {o : Outlook} (h : ∃ word ∈ words, o.placed.Test word) :
    ∃ word ∈ words, o.Test word := by
  obtain ⟨word, hm, hw, hp⟩ := h
  exact ⟨word, hm, o.head_placed ▸ hw, Outlook.kindAt_placed.mp hp⟩

/-- Empty parentheses are a test. -/
theorem test_of_emptyParens {kind : NodeKind} {word : String} {o o' : Outlook} {ts : List Tree}
    (hb : (Form.emptyParens kind word).Builds o ts o') : o.Test word := by
  cases hb with
  | node hb =>
    obtain ⟨w, hm, h⟩ := test_of_placed (test_of_builds hb (.seq mark_leads (.any _)))
    exact List.mem_singleton.mp hm ▸ h

/-- So is a kind test. -/
theorem test_of_kindTest {o o' : Outlook} {ts : List Tree} (hb : Form.kindTest.Builds o ts o') :
    ∃ word ∈ kindTestNames, o.Test word := by
  cases hb with
  | node hb => exact test_of_placed (test_of_builds hb (.seq mark_leads (.any _)))

theorem testType_reads (name : String) : Reads S (Outlook.Test name) (testType name) id .testType NoMark := by
  unfold testType
  have hempty : ∀ {o ts o'}, (Form.emptyParens .emptySequence "empty-sequence").Builds o ts o' → o.Test name → name = "empty-sequence" :=
    fun hb h => h.1.unique (test_of_emptyParens hb).1
  have hitem : ∀ {o ts o'}, (Form.seq (.emptyParens .anyItem "item") .occurrence).Builds o ts o' → o.Test name → name = "item" := by
    intro o ts o' hb h
    cases hb with
    | seq hb => exact h.1.unique (test_of_emptyParens hb).1
  have hkind : ∀ {o ts o'}, (Form.seq .kindTest .occurrence).Builds o ts o' → o.Test name → name ∈ kindTestNames := by
    intro o ts o' hb h
    cases hb with
    | seq hb =>
      obtain ⟨word, hm, hw⟩ := test_of_kindTest hb
      exact h.1.unique hw.1 ▸ hm
  have hnever : ∀ {o ts o'}, ¬ Form.never.Builds o ts o' := by
    intro o ts o' hb
    cases hb with
    | one _ _ _ h => cases h
  split
  · next hn =>
    subst hn
    refine (emptyParens_reads _ _).first fun o ts o' h hb _ => ?_
    cases hb with
    | first hb => exact absurd (hitem hb h) (by decide)
    | second hb =>
      cases hb with
      | first hb => exact absurd (hkind hb h) (by decide)
      | second hb => exact hnever hb
  · next hn =>
    refine .second ?_ fun o ts o' h hb _ => hn (hempty hb h)
    split
    · next hi =>
      subst hi
      refine (marked_reads (emptyParens_reads .anyItem "item")).first fun o ts o' h hb _ => ?_
      cases hb with
      | first hb => exact absurd (hkind hb h) (by decide)
      | second hb => exact hnever hb
    · next hi =>
      refine .second ?_ fun o ts o' h hb _ => hi (hitem hb h)
      split
      · next hk =>
        refine Reads.first (.of_imp (marked_reads kindTest_reads) fun o h => ?_) fun o ts o' h hb _ => hnever hb
        exact ⟨name, by simpa using hk, h⟩
      · next hk =>
        refine ((Fails.reportNext _ rfl).thenPure _).reads fun o ts o' h hb _ => ?_
        cases hb with
        | first hb => exact hk (by simpa using hkind hb h)
        | second hb => exact hnever hb

/-! ## Item types -/

theorem atomicType_reads : Reads S (fun o => IsKind .name o.head) atomicType id .atomicType fun t => NoMark t ∧ NoColon t := by
  refine .andNext (Q := fun _ => True) (F := NoColon)
    (.node .atomicType (Q := fun o => True ∧ IsKind .name o.head) qname_reads fun o h => ⟨trivial, o.head_placed ▸ h⟩)
    (fun _ _ _ _ _ => trivial) ((occurrenceMark_reads.thenPure rfl).imp (fun _ h => h) fun _ h => h.1) ?_
  refine .either (.node (.one fun t h => ?_)) (.nothing fun t h => h.2)
  intro hc
  rw [isKind_some.mp hc] at h
  cases h

/-- Placing trivia does not change which kinds touch behind the first lexeme. -/
theorem Outlook.touchingAt_placed {o : Outlook} {i : Nat} {kind : TokenKind} :
    o.placed.TouchingAt (i + 1) kind ↔ o.TouchingAt (i + 1) kind := by
  obtain ⟨_ | ⟨l, ls⟩, tail, reached⟩ := o <;> exact Iff.rfl

/-- Behind the first name of a qualified name a colon comes that touches, or the name ends. -/
theorem qname_second {o o' : Outlook} {ts : List Tree} (hb : Form.qname.Builds o ts o') :
    o.TouchingAt 1 .colon ∨ (o.KindAt 1 .parenOpen → IsKind .parenOpen o'.head) := by
  cases hb with
  | node hb =>
    rw [← Outlook.touchingAt_placed, ← Outlook.kindAt_placed]
    generalize o.placed = p at hb
    cases hb with
    | first hb =>
      cases hb with
      | prefixed ls tail reached _ hk ht => exact .inl (by simp [Outlook.TouchingAt, hk, ht])
    | second hb =>
      cases hb with
      | one => exact .inr fun h => Outlook.kindAt_zero.mp h

/-- So does an atomic type. -/
theorem atomicType_second {o o' : Outlook} {ts : List Tree} (hb : Form.atomicType.Builds o ts o') (ho : EndsType o'.head) :
    o.TouchingAt 1 .colon ∨ ¬ o.KindAt 1 .parenOpen := by
  cases hb with
  | seq hname hmark =>
    cases hname with
    | node hname =>
      rw [← Outlook.touchingAt_placed, ← Outlook.kindAt_placed]
      refine (qname_second hname).imp id fun hp h => ?_
      cases hmark with
      | first hmark =>
        obtain ⟨t, ht, hk⟩ := occurrence_leads (G := fun _ => True) _ _ _ hmark trivial
        have hp := hp h
        rw [ht, isKind_some] at hp
        rw [hp] at hk
        cases hk
      | second hmark =>
        cases hmark
        exact ho.2.2 (hp h)

/-- A test is a word and an opening parenthesis. -/
theorem test_of_testType {o o' : Outlook} {ts : List Tree} (hb : Form.testType.Builds o ts o') : ∃ word, o.Test word := by
  cases hb with
  | first hb => exact ⟨_, test_of_emptyParens hb⟩
  | second hb =>
    cases hb with
    | first hb =>
      cases hb with
      | seq hb => exact ⟨_, test_of_emptyParens hb⟩
    | second hb =>
      cases hb with
      | first hb =>
        cases hb with
        | seq hb =>
          obtain ⟨word, -, h⟩ := test_of_kindTest hb
          exact ⟨word, h⟩
      | second hb =>
        cases hb with
        | one _ _ _ h => cases h

/-- So does every item type. -/
theorem itemType_leads {G : Option Token → Prop} : Form.itemType.Leads G (IsKind .name) := by
  refine .either (.seq (.node qname_leads) (.any _)) fun o ts o' hb _ => ?_
  obtain ⟨word, h, -⟩ := test_of_testType hb
  obtain ⟨t, ht, hk, -⟩ := h.token
  rw [ht]
  exact isKind_some.mpr hk

/-- A lexeme is of one kind only. -/
theorem Outlook.KindAt.unique {o : Outlook} {i : Nat} {kind kind' : TokenKind} (h : o.KindAt i kind) (h' : o.KindAt i kind') :
    kind = kind' :=
  Option.some.inj (h.symm.trans h')

theorem itemType_reads : Reads S P itemType id .itemType EndsType := by
  refine .when (H := IsKind .name) (sees_head .name) ?_ itemType_leads ((Fails.reportNext _ rfl).thenPure _)
  refine .look nextText_looks.keeps fun name => .look (seesTouching_looks 1 .colon).keeps fun b => .ite (fun hb => ?_) fun hb => ?_
  · refine (atomicType_reads.imp (fun o h => h.1.1.2) fun t h => ⟨h.1, h.2.1⟩).first fun o ts o' h hbuilds _ => ?_
    obtain ⟨word, -, hp⟩ := test_of_testType hbuilds
    exact absurd ((h.2.mp hb).kindAt.unique hp) (by decide)
  have hcolon : ∀ {o : Outlook}, (b = true ↔ o.TouchingAt 1 .colon) → ¬ o.TouchingAt 1 .colon := fun h hc => by
    rw [h.mpr hc] at hb
    cases hb
  refine .look (seesAt_looks 1 .parenOpen).keeps fun p => .ite (fun hp => ?_) fun hp => ?_
  · refine Reads.second ((testType_reads name).imp (fun o h => ?_) fun t h => h.1) fun o ts o' h hbuilds ho => ?_
    · obtain ⟨⟨⟨⟨-, hk⟩, hname⟩, -⟩, hparen⟩ := h
      exact ⟨hk.isWord hname, hparen.mp hp⟩
    · exact (atomicType_second hbuilds ho).elim (hcolon h.1.2) fun hn => hn (h.2.mp hp)
  · refine (atomicType_reads.imp (fun o h => h.1.1.1.2) fun t h => ⟨h.1, h.2.1⟩).first fun o ts o' h hbuilds _ => ?_
    obtain ⟨word, -, hparen⟩ := test_of_testType hbuilds
    rw [h.2.mpr hparen] at hp
    cases hp

/-! ## Type declarations -/

/-- What may follow a type declaration that may be left out. -/
def EndsTyped (t : Option Token) : Prop := EndsType t ∧ ¬ IsWord "as" t

theorem typeDecl_reads : Reads S (fun o => IsWord "as" o.head) typeDecl id .typeDecl EndsType := by
  refine .node .typeDecl (Q := fun o => True ∧ IsWord "as" o.head) ?_ fun o h => ⟨trivial, o.head_placed ▸ h⟩
  exact .andNext (Q := fun _ => True) (F := fun _ => True) .takeWord (fun _ _ _ _ _ => trivial)
    (.leadNode .sequenceType itemType_reads) (.any _)

/-- A type declaration starts with its word. -/
theorem typeDecl_leads {G : Option Token → Prop} : Form.typeDecl.Leads G (IsWord "as") :=
  .node (.seq word_leads (.any _))

theorem optionalType_reads : Reads S P optionalType id (.optional .typeDecl) EndsTyped :=
  .either (H := IsWord "as") (seesWord_head "as") (typeDecl_reads.imp (fun _ h => h.2) fun _ h => h.1) typeDecl_leads (.pure rfl)
    (.nothing fun _ h => h.2)

end QueryStubs.Grammar
