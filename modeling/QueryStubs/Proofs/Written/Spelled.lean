import QueryStubs.Proofs.Syntax.Grammar
import QueryStubs.Proofs.Syntax.Lexical
import QueryStubs.Proofs.Written.Scanned

/-!
# The forms of what was written

`Spells f us` says that trees `us` can be built of the form `f` from the tokens they were made from, whatever tokens follow. It goes
through a form as the trees of a construct are put together, and so the tree of a written module is built of the form of modules
(`Module.builds`).
-/

namespace QueryStubs

open Grammar

/-! ## Outlooks on tokens -/

/-- The outlook on some tokens, of which the first starts at a byte offset. -/
def look (offset reached : Nat) (ts : List Token) : Outlook :=
  ⟨(Lexeme.split offset [] ts).1, (Lexeme.split offset [] ts).2, reached⟩

/-- Trivia are put in front of the next lexeme. -/
theorem split_trivia {lead : List Token} (h : Token.AllTrivia lead) (offset : Nat) (before ts : List Token) :
    Lexeme.split offset before (lead ++ ts) = Lexeme.split (offset + Token.sizeOf lead) (before ++ lead) ts := by
  induction lead generalizing offset before with
  | nil => simp
  | cons t lead ih =>
    have ht := h t (List.mem_cons_self ..)
    rw [List.cons_append, Lexeme.split, if_pos ht, ih (fun u hu => h u (List.mem_cons_of_mem _ hu)), Token.sizeOf_cons, Nat.add_assoc,
      List.append_assoc]
    rfl

/-- A gap has no tokens but trivia. -/
theorem allTrivia_gap (b : Bool) : Token.AllTrivia (gap b) := by
  intro t h
  cases b with
  | false => cases h
  | true =>
    rw [List.mem_singleton.mp h]
    rfl

section Lead

variable {w : List Token} (hw : Token.AllTrivia w)
include hw

/-- What comes next behind trivia. -/
theorem look_cons {t : Token} (ht : t.isTrivia = false) (offset reached : Nat) (ts : List Token) :
    ∃ start, look offset reached (w ++ t :: ts) =
      ⟨⟨w, t, ⟨start, start + t.size⟩⟩ :: (look (start + t.size) 0 ts).ahead, (look (start + t.size) 0 ts).tail, reached⟩ := by
  refine ⟨offset + Token.sizeOf w, ?_⟩
  unfold look
  rw [split_trivia hw, Lexeme.split, if_neg (by simp [ht])]
  rfl

/-- Trivia are placed before what comes next. -/
theorem look_placed {ts : List Token} (hts : ∀ t, ts.head? = some t → t.isTrivia = false) (offset reached : Nat) :
    (look offset reached (w ++ ts)).trivia = w ∧ ∃ start, (look offset reached (w ++ ts)).placed = look start reached ts := by
  cases ts with
  | nil =>
    unfold look
    rw [split_trivia hw]
    exact ⟨rfl, 0, rfl⟩
  | cons t ts =>
    have ht := hts t rfl
    obtain ⟨start, hl⟩ := look_cons hw ht offset reached ts
    rw [hl]
    refine ⟨rfl, start, ?_⟩
    unfold look
    rw [Lexeme.split, if_neg (by simp [ht])]
    rfl

end Lead

/-! ## Spelling forms -/

/-- The trees can be built of the form from their tokens, whatever tokens follow. -/
def Spells (f : Form) (us : List Tree) : Prop :=
  ∀ offset reached rest, ∃ offset' reached', f.Builds (look offset reached (tokensOf us ++ rest)) us (look offset' reached' rest)

/-- Trivia are no keywords. -/
theorem Token.ne_keyword_of_trivia {t : Token} (h : t.isTrivia = true) : t.kind ≠ .keyword := by
  intro hk
  rw [isTrivia, hk] at h
  cases h

/-- The leaves of trivia have just these tokens. -/
theorem tokensOf_trivia {w : List Token} (hw : Token.AllTrivia w) : tokensOf (leavesFor w) = w :=
  tokensOf_leavesFor fun t ht => Token.ne_keyword_of_trivia (hw t ht)

/-- The leaves of a gap have its tokens. -/
@[simp] theorem tokensOf_gap (b : Bool) : tokensOf (leavesFor (gap b)) = gap b := tokensOf_trivia (allTrivia_gap b)

/-- A node is built behind the trivia in front of it. -/
theorem builds_node {w : List Token} (hw : Token.AllTrivia w) {ts : List Token}
    (hts : ∀ t, ts.head? = some t → t.isTrivia = false) (offset reached : Nat) :
    ∃ start, ∀ (kind : NodeKind) (f : Form) (us : List Tree) (o : Outlook), f.Builds (look start reached ts) us o →
      (Form.node kind f).Builds (look offset reached (w ++ ts)) (leavesFor w ++ [.node kind us]) o := by
  obtain ⟨htrivia, start, hplaced⟩ := look_placed hw hts offset reached
  refine ⟨start, fun kind f us o h => ?_⟩
  rw [← hplaced] at h
  have hnode : (Form.node kind f).Builds _ (leavesFor (look offset reached (w ++ ts)).trivia ++ [.node kind us]) o := .node h
  rw [htrivia] at hnode
  exact hnode

/-- The tokens of the trees start with one that is no trivia. -/
def Fronted (us : List Tree) : Prop := ∃ t ts, tokensOf us = t :: ts ∧ t.isTrivia = false

namespace Spells

variable {f g : Form} {us vs : List Tree}

/-- The same trees may be put together in another way. -/
theorem of_eq (h : Spells f us) (he : us = vs) : Spells f vs := he ▸ h

/-- Nothing is spelled by no trees. -/
theorem nothing : Spells .nothing [] := fun offset reached _ => ⟨offset, reached, .nothing _⟩

/-- Trees for one form and trees for the next spell both. -/
theorem seq (hf : Spells f us) (hg : Spells g vs) : Spells (.seq f g) (us ++ vs) := by
  intro offset reached rest
  obtain ⟨offset', reached', hb⟩ := hf offset reached (tokensOf vs ++ rest)
  obtain ⟨offset'', reached'', hb'⟩ := hg offset' reached' rest
  rw [← List.append_assoc, ← tokensOf_append] at hb
  exact ⟨offset'', reached'', .seq hb hb'⟩

/-- Trees for the first of two forms spell a choice of them. -/
theorem first (h : Spells f us) : Spells (.either f g) us := by
  intro offset reached rest
  obtain ⟨offset', reached', hb⟩ := h offset reached rest
  exact ⟨offset', reached', .first hb⟩

/-- So do trees for the second. -/
theorem second (h : Spells g us) : Spells (.either f g) us := by
  intro offset reached rest
  obtain ⟨offset', reached', hb⟩ := h offset reached rest
  exact ⟨offset', reached', .second hb⟩

/-- No trees spell a form that may stand any number of times. -/
theorem none : Spells (.many f) [] := fun offset reached _ => ⟨offset, reached, .manyNil _⟩

/-- A form before others. -/
theorem manyCons (h : Spells f us) (hs : Spells (.many f) vs) : Spells (.many f) (us ++ vs) := by
  intro offset reached rest
  obtain ⟨offset', reached', hb⟩ := h offset reached (tokensOf vs ++ rest)
  obtain ⟨offset'', reached'', hb'⟩ := hs offset' reached' rest
  rw [← List.append_assoc, ← tokensOf_append] at hb
  exact ⟨offset'', reached'', .manyCons hb hb'⟩

/-- One form after the other. -/
theorem many {uss : List (List Tree)} (h : ∀ us ∈ uss, Spells f us) : Spells (.many f) uss.flatten := by
  induction uss with
  | nil => exact none
  | cons us uss ih => exact (h us (List.mem_cons_self ..)).manyCons (ih fun vs hv => h vs (List.mem_cons_of_mem _ hv))

/-- A node with the trivia in front of it is spelled by its children. -/
theorem leadNode (kind : NodeKind) (h : Spells f us) : Spells (.leadNode kind f) [.node kind us] := by
  intro offset reached rest
  obtain ⟨offset', reached', hb⟩ := h offset reached rest
  refine ⟨offset', reached', ?_⟩
  rw [tokensOf_cons, Tree.tokens_node, tokensOf_nil, List.append_nil]
  exact .leadNode hb

/-- A node is spelled by its children, with trivia in front of it that are none of them. -/
theorem node_behind {w : List Token} (hw : Token.AllTrivia w) (kind : NodeKind) (h : Spells f us) (hus : Fronted us) :
    Spells (.node kind f) (leavesFor w ++ [.node kind us]) := by
  intro offset reached rest
  obtain ⟨t, ts, hts, ht⟩ := hus
  have hhead : ∀ u, (tokensOf us ++ rest).head? = some u → u.isTrivia = false := by
    intro u hu
    rw [hts] at hu
    exact Option.some.inj hu ▸ ht
  obtain ⟨start, hnode⟩ := builds_node hw hhead offset reached
  obtain ⟨offset', reached', hb⟩ := h start reached rest
  refine ⟨offset', reached', ?_⟩
  rw [tokensOf_append, tokensOf_trivia hw, tokensOf_cons, Tree.tokens_node, tokensOf_nil, List.append_nil, List.append_assoc]
  exact hnode _ _ _ _ hb

/-- A node is spelled by its children, with or without a space in front of it. -/
theorem node (b : Bool) (kind : NodeKind) (h : Spells f us) (hus : Fronted us) :
    Spells (.node kind f) (leavesFor (gap b) ++ [.node kind us]) :=
  node_behind (allTrivia_gap b) kind h hus

/-- A token behind trivia. -/
theorem one_behind {w : List Token} (hw : Token.AllTrivia w) {p : TokenKind → Bool} {t : Token} (ht : t.isTrivia = false)
    (hk : t.kind ≠ .keyword) (hp : p t.kind = true) : Spells (.one p) (leavesFor w ++ [.leaf t]) := by
  intro offset reached rest
  have hts : t.asScanned = t := if_neg hk
  obtain ⟨start, hl⟩ := look_cons hw ht offset reached rest
  refine ⟨start + t.size, start + t.size, ?_⟩
  rw [tokensOf_append, tokensOf_trivia hw, tokensOf_cons, Tree.tokens_leaf, hts, tokensOf_nil, List.append_nil, List.append_assoc,
    List.singleton_append, hl]
  exact .one _ _ _ hp

/-- A token behind a gap. -/
theorem one (b : Bool) {p : TokenKind → Bool} {t : Token} (ht : t.isTrivia = false) (hk : t.kind ≠ .keyword) (hp : p t.kind = true) :
    Spells (.one p) (leavesFor (gap b) ++ [.leaf t]) :=
  one_behind (allTrivia_gap b) ht hk hp

/-- A mark behind a gap. -/
theorem mark (b : Bool) (kind : TokenKind) (c : Char) (ht : kind.isTrivia = false) (hk : kind ≠ .keyword) :
    Spells (.mark kind) (leavesFor (gap b) ++ [.mark kind c]) :=
  one b ht hk (decide_eq_true rfl)

/-- A name behind a gap. -/
theorem name (b : Bool) (w : String) : Spells (.mark .name) (leavesFor (gap b) ++ [.name w]) :=
  one b rfl (by simp [Token.ofName]) (decide_eq_true rfl)

/-- A word behind trivia. -/
theorem keyword_behind {v : List Token} (hv : Token.AllTrivia v) {w : String} {ws : List String} (hw : w ∈ ws) :
    Spells (.keyword ws) (leavesFor v ++ [.word w]) := by
  intro offset reached rest
  obtain ⟨start, hl⟩ := look_cons hv (t := .ofName w) rfl offset reached rest
  refine ⟨start + (Token.ofName w).size, start + (Token.ofName w).size, ?_⟩
  rw [tokensOf_append, tokensOf_trivia hv, tokensOf_cons, Tree.tokens_word, tokensOf_nil, List.append_nil, List.append_assoc,
    List.singleton_append, hl]
  exact .keyword _ _ _ rfl hw

/-- A word behind a gap. -/
theorem keyword (b : Bool) {w : String} {ws : List String} (hw : w ∈ ws) : Spells (.keyword ws) (leavesFor (gap b) ++ [.word w]) :=
  keyword_behind (allTrivia_gap b) hw

/-- The one word of a form behind a gap. -/
theorem word (b : Bool) (w : String) : Spells (.word w) (leavesFor (gap b) ++ [.word w]) :=
  keyword b (List.mem_singleton.mpr rfl)

/-- A form and a semicolon. -/
theorem ended (h : Spells f us) : Spells (.seq f (.mark .semicolon)) (us ++ [.mark .semicolon ';']) :=
  h.seq (mark false .semicolon ';' rfl (by decide))

/-- A form in parentheses. -/
theorem parens (h : Spells f us) :
    Spells (.row [.mark .parenOpen, f, .mark .parenClose]) (.mark .parenOpen '(' :: us ++ [.mark .parenClose ')']) :=
  (mark false .parenOpen '(' rfl (by decide)).seq (h.seq (mark false .parenClose ')' rfl (by decide)))

/-- Lexemes that are not looked into. -/
theorem run {p : List TokenKind → Prop} {run : List Lexeme}
    (h : ∀ l ∈ run, Token.AllTrivia l.lead ∧ l.token.isTrivia = false ∧ l.kind ≠ .keyword) (hp : p (run.map (·.kind))) :
    Spells (.run p) (leavesFor (run.flatMap Lexeme.tokens)) := by
  have hrun : ∀ (offset : Nat) (rest : List Token), ∃ (ls : List Lexeme) (offset' : Nat), ls.map (·.kind) = run.map (·.kind) ∧
      ls.flatMap Lexeme.tokens = run.flatMap Lexeme.tokens ∧ ∀ reached, look offset reached (run.flatMap Lexeme.tokens ++ rest) =
        ⟨ls ++ (look offset' 0 rest).ahead, (look offset' 0 rest).tail, reached⟩ := by
    clear hp
    induction run with
    | nil => exact fun offset rest => ⟨[], offset, rfl, rfl, fun _ => rfl⟩
    | cons l run ih =>
      intro offset rest
      obtain ⟨hl, hrest⟩ := List.forall_mem_cons.mp h
      obtain ⟨start, hnext⟩ := look_cons hl.1 hl.2.1 offset 0 (run.flatMap Lexeme.tokens ++ rest)
      obtain ⟨ls, offset', hm, hf, hlook⟩ := ih hrest (start + l.token.size) rest
      refine ⟨⟨l.lead, l.token, ⟨start, start + l.token.size⟩⟩ :: ls, offset', ?_, ?_, fun reached => ?_⟩
      · rw [List.map_cons, List.map_cons, hm]
        rfl
      · rw [List.flatMap_cons, List.flatMap_cons, hf]
        rfl
      · have hall : look offset reached (l.lead ++ l.token :: (run.flatMap Lexeme.tokens ++ rest)) =
            { look offset 0 (l.lead ++ l.token :: (run.flatMap Lexeme.tokens ++ rest)) with reached } := rfl
        rw [List.flatMap_cons, Lexeme.tokens, List.append_assoc, List.append_assoc, List.singleton_append, hall, hnext, hlook 0]
        rfl
  intro offset reached rest
  obtain ⟨ls, offset', hm, hf, hlook⟩ := hrun offset rest
  have htokens : tokensOf (leavesFor (run.flatMap Lexeme.tokens)) = run.flatMap Lexeme.tokens := by
    refine tokensOf_leavesFor fun t ht => ?_
    obtain ⟨l, hl, ht⟩ := List.mem_flatMap.mp ht
    rcases List.mem_append.mp ht with ht | ht
    · exact Token.ne_keyword_of_trivia ((h l hl).1 t ht)
    · exact List.mem_singleton.mp ht ▸ (h l hl).2.2
  refine ⟨offset', reachedBy reached ls, ?_⟩
  have hb := Form.Builds.run (look offset' 0 rest).ahead (look offset' 0 rest).tail reached (hm ▸ hp)
  rw [hf] at hb
  rw [htokens, hlook]
  exact hb

/-- Tokens that are not looked into, with no trivia among them. -/
theorem run_bare {p : List TokenKind → Prop} {ts : List Token} (h : ∀ t ∈ ts, t.isTrivia = false ∧ t.kind ≠ .keyword)
    (hp : p (ts.map (·.kind))) : Spells (.run p) (leavesFor ts) := by
  have hall : ∀ l ∈ ts.map (⟨[], ·, ⟨0, 0⟩⟩ : Token → Lexeme), Token.AllTrivia l.lead ∧ l.token.isTrivia = false ∧ l.kind ≠ .keyword := by
    intro l hl
    obtain ⟨t, ht, rfl⟩ := List.mem_map.mp hl
    exact ⟨.nil, h t ht⟩
  have hkinds : (ts.map (⟨[], ·, ⟨0, 0⟩⟩ : Token → Lexeme)).map (·.kind) = ts.map (·.kind) := by
    rw [List.map_map]
    rfl
  have hspells := Spells.run hall (hkinds ▸ hp)
  rwa [List.flatMap_map, show (fun t : Token => Lexeme.tokens ⟨[], t, ⟨0, 0⟩⟩) = fun t => [t] from rfl, List.flatMap_singleton'] at hspells

/-- Two names with a colon between, behind trivia. -/
theorem prefixed_behind {w : List Token} (hw : Token.AllTrivia w) {first colon last : Token} (hfirst : first.kind = .name)
    (hcolon : colon.kind = .colon) (hlast : last.kind = .name) :
    Spells .prefixed (leavesFor w ++ [.leaf first, .leaf colon, .leaf last]) := by
  have hplain : ∀ {t : Token}, t.kind = .name ∨ t.kind = .colon → t.isTrivia = false ∧ t.asScanned = t := by
    rintro t (h | h) <;> simp [Token.isTrivia, Token.asScanned, h, TokenKind.isTrivia]
  obtain ⟨hf, hfs⟩ := hplain (.inl hfirst)
  obtain ⟨hc, hcs⟩ := hplain (.inr hcolon)
  obtain ⟨hl, hls⟩ := hplain (.inl hlast)
  intro offset reached rest
  obtain ⟨p, hp⟩ := look_cons hw hf offset reached (colon :: last :: rest)
  obtain ⟨q, hq⟩ := look_cons .nil hc (p + first.size) 0 (last :: rest)
  obtain ⟨r, hr⟩ := look_cons .nil hl (q + colon.size) 0 rest
  rw [List.nil_append] at hq hr
  have htokens : tokensOf (leavesFor w ++ [.leaf first, .leaf colon, .leaf last]) ++ rest = w ++ first :: colon :: last :: rest := by
    simp [tokensOf_trivia hw, hfs, hcs, hls]
  refine ⟨r + last.size, r + last.size, ?_⟩
  rw [htokens, hp, hq, hr]
  exact .prefixed _ _ _ hfirst hcolon rfl hlast rfl

/-- Two names with a colon between. -/
theorem prefixed (p l : String) : Spells .prefixed (leavesFor (QName.tokens ⟨some p, l⟩)) :=
  prefixed_behind .nil rfl rfl rfl

end Spells

/-! ## Names, literals and types -/

/-- The tree of a name has the form of one. -/
theorem QName.spells (b : Bool) (n : QName) : Spells .qname (leavesFor (gap b) ++ [n.tree]) := by
  have hnames : Spells (.either .prefixed (.mark .name)) (leavesFor n.tokens) := by
    obtain ⟨_ | p, l⟩ := n
    · exact .second (.name false l)
    · exact .first (.prefixed p l)
  refine .node b .qname hnames ?_
  obtain ⟨_ | p, l⟩ := n <;> exact ⟨_, _, rfl, rfl⟩

/-- The tree of a literal has the form of one. -/
theorem Quoted.spells (b : Bool) (l : Quoted) : Spells .str (leavesFor (gap b) ++ [l.tree]) := by
  have hplain : (Token.ofQuote l.quote).isTrivia = false ∧ (Token.ofQuote l.quote).kind ≠ .keyword := by cases l.quote <;> decide
  have hquote : Spells (.mark l.quote.kind) (leavesFor (gap false) ++ [.leaf (.ofQuote l.quote)]) :=
    .one false hplain.1 hplain.2 (decide_eq_true rfl)
  have hbody : Spells (.optional (.mark .literalText)) (leavesFor (Token.ofBody (Text.doubled l.quote.char l.text.toList))) := by
    cases Text.doubled l.quote.char l.text.toList with
    | nil => exact .second .nothing
    | cons c cs => exact .first (.one false rfl (by simp) (decide_eq_true rfl))
  have hliteral : Spells (.literalIn l.quote.kind) (leavesFor l.tokens) :=
    (hquote.seq (hbody.seq hquote)).of_eq (by simp [tokens, leavesFor, gap])
  have heither : Spells (.either (.literalIn .doubleQuote) (.literalIn .singleQuote)) (leavesFor l.tokens) := by
    revert hliteral
    cases l.quote with
    | double => exact .first
    | single => exact .second
  exact .node b .str heither ⟨_, _, (Tree.tokens_node .str _).symm.trans l.tokens_tree, hplain.1⟩

/-- The tree of a kind test has the form of one. -/
theorem KindTest.spells (b : Bool) (k : KindTest) (names : List QName) :
    Spells .kindTest (leavesFor (gap b) ++ [.node .kindTest (keywordLeaves (k.tokens names))]) := by
  refine .node b .kindTest ?_ ⟨_, _, rfl, rfl⟩
  have hword : Spells (.keyword kindTestNames) (leavesFor (gap false) ++ [.word k.keyword]) :=
    .keyword false (by cases k <;> decide)
  have hkinds : ∀ ks : List TokenKind, (∀ kind ∈ ks, kind = .name ∨ kind = .colon ∨ kind = .comma) →
      Balanced .parenOpen .parenClose ks := by
    intro ks hks
    induction ks with
    | nil => rfl
    | cons kind ks ih =>
      have hrest := ih fun k hk => hks k (List.mem_cons_of_mem _ hk)
      rcases hks kind (List.mem_cons_self ..) with rfl | rfl | rfl <;> exact hrest
  have hnames : Spells (.run (Balanced .parenOpen .parenClose)) (leavesFor (argumentTokens names)) := by
    refine .run_bare (fun t ht => ?_) (hkinds _ fun kind hk => ?_)
    · rcases kind_of_mem_arguments ht with h | h | h <;> simp [Token.isTrivia, h, TokenKind.isTrivia]
    · obtain ⟨t, ht, rfl⟩ := List.mem_map.mp hk
      exact kind_of_mem_arguments ht
  refine (hword.seq hnames.parens).of_eq ?_
  simp only [keywordLeaves, tokens, leavesFor, gap, List.map_cons, List.map_append, List.map_nil]
  rfl

/-- The tree of an occurrence has the form of one. -/
theorem Occurrence.spells (o : Occurrence) : Spells .occurrence o.trees := by
  have hmark : ∀ (kind : TokenKind) (c : Char), kind.isOccurrence = true →
      Spells (.one TokenKind.isOccurrence) (leavesFor (gap false) ++ [.mark kind c]) := by
    intro kind c hk
    refine .one false ?_ ?_ hk
    · cases kind <;> first | rfl | cases hk
    · rintro rfl
      cases hk
  cases o with
  | exactlyOne => exact .second .nothing
  | optional => exact .first (.node false .occurrence (hmark .question '?' rfl) ⟨_, _, rfl, rfl⟩)
  | zeroOrMore => exact .first (.node false .occurrence (hmark .star '*' rfl) ⟨_, _, rfl, rfl⟩)
  | oneOrMore => exact .first (.node false .occurrence (hmark .plus '+' rfl) ⟨_, _, rfl, rfl⟩)

/-- A word and an empty pair of parentheses behind a gap. -/
theorem emptyParens_spells (b : Bool) (kind : NodeKind) (w : String) :
    Spells (.emptyParens kind w) (leavesFor (gap b) ++ [.node kind [.word w, .mark .parenOpen '(', .mark .parenClose ')']]) := by
  refine .node b kind ?_ ⟨_, _, rfl, rfl⟩
  have hopen : Spells (.mark .parenOpen) (leavesFor (gap false) ++ [.mark .parenOpen '(']) := .mark false _ _ rfl (by decide)
  have hclose : Spells (.mark .parenClose) (leavesFor (gap false) ++ [.mark .parenClose ')']) := .mark false _ _ rfl (by decide)
  exact (Spells.word false w).seq (hopen.seq hclose)

/-- An item type and its mark behind a space. -/
theorem SequenceType.spells_item {t : SequenceType} (ht : t.Writable) :
    Spells .itemType (.space :: t.item.tree :: t.occurrence.trees) := by
  obtain ⟨item, occurrence⟩ := t
  obtain ⟨hitem, hempty⟩ := ht
  have hmark := occurrence.spells
  cases item with
  | atomic n =>
    have hname : Spells (.node .atomicType .qname) (leavesFor (gap true) ++ [.node .atomicType [n.tree]]) := by
      refine .node true .atomicType (n.spells false) ?_
      rw [Fronted, tokensOf_cons, QName.tokens_tree]
      obtain ⟨_ | p, l⟩ := n <;> exact ⟨_, _, rfl, rfl⟩
    exact .first (hname.seq hmark)
  | kindTest k s =>
    obtain ⟨names, hn, rfl⟩ := hitem
    have htest := (k.spells true names).seq hmark
    rw [← KindTest.ofSource_source hn] at htest
    exact .second (.second (.second (.first htest)))
  | anyItem => exact .second (.second (.first ((emptyParens_spells true .anyItem "item").seq hmark)))
  | emptySequence =>
    have hone : occurrence = .exactlyOne := hempty rfl
    rw [hone]
    exact .second (.first (emptyParens_spells true .emptySequence "empty-sequence"))

/-- The trees of a type have the form of one, or there are none. -/
theorem typeTrees_spells {t : Option SequenceType} (ht : ∀ u ∈ t, u.Writable) : Spells (.optional .typeDecl) (typeTrees t) := by
  cases t with
  | none => exact .second .nothing
  | some t =>
    have hinside := (Spells.word false "as").seq ((SequenceType.spells_item (ht t rfl)).leadNode .sequenceType)
    exact .first (.node true .typeDecl hinside ⟨_, _, rfl, rfl⟩)

/-! ## Declarations -/

/-- The tree of a parameter has the form of one. -/
theorem Param.spells (b : Bool) {p : Param} (hp : p.Writable) : Spells .param (leavesFor (gap b) ++ [p.tree]) := by
  have hdollar : Spells (.mark .dollar) (leavesFor (gap false) ++ [.mark .dollar '$']) := .mark false _ _ rfl (by decide)
  have hinside := hdollar.seq ((p.name.spells false).seq (typeTrees_spells hp.2))
  exact .node b .param hinside ⟨_, _, rfl, rfl⟩

/-- The tree of some parameters has the form of their list. -/
theorem paramList_spells {ps : List Param} (hps : ∀ p ∈ ps, p.Writable) : Spells .paramList [paramListTree ps] := by
  have hparams : Spells (.optional (.listOf .param)) (paramTrees ps) := by
    cases ps with
    | nil => exact .second .nothing
    | cons p ps =>
      have hcomma : Spells (.mark .comma) (leavesFor (gap false) ++ [.mark .comma ',']) := .mark false _ _ rfl (by decide)
      have hrest : Spells (.many (.seq (.mark .comma) .param)) (ps.map fun q => [.mark .comma ',', .space, q.tree]).flatten := by
        refine .many fun us hu => ?_
        obtain ⟨q, hq, rfl⟩ := List.mem_map.mp hu
        exact hcomma.seq (Param.spells true (hps q (List.mem_cons_of_mem _ hq)))
      exact .first ((Param.spells false (hps p (List.mem_cons_self ..))).seq hrest)
  exact .node false .paramList hparams.parens ⟨_, _, rfl, rfl⟩

/-- The tree of a body has the form of one. -/
theorem FunctionBody.spells (b : FunctionBody) : Spells .functionBody [.space, b.tree] := by
  cases b with
  | enclosed =>
    have hopen : Spells (.mark .braceOpen) (leavesFor (gap false) ++ [.mark .braceOpen '\x7b']) := .mark false _ _ rfl (by decide)
    have hclose : Spells (.mark .braceClose) (leavesFor (gap true) ++ [.mark .braceClose '\x7d']) := .mark true _ _ rfl (by decide)
    have hnone : Spells (.run (Balanced .braceOpen .braceClose)) (leavesFor []) := .run_bare (List.forall_mem_nil _) rfl
    exact .first (.node true .enclosedBody (hopen.seq (hnone.seq hclose)) ⟨_, _, rfl, rfl⟩)
  | external => exact .second (.node true .externalBody (.word false "external") ⟨_, _, rfl, rfl⟩)

/-- A function behind a gap is a declaration of a prolog. -/
theorem FunctionDecl.spells (b : Bool) {f : FunctionDecl} (hf : f.Writable) :
    Spells (.declOf Form.otherKinds) (leavesFor (gap b) ++ [f.tree]) := by
  have hwords : Spells (.keywords [["declare"], ["function"]]) _ :=
    (Spells.word false "declare").seq ((Spells.word true "function").seq .nothing)
  have hrest := (f.name.spells true).seq ((paramList_spells hf.params).seq ((typeTrees_spells hf.returnType).seq f.body.spells))
  have hall : Spells (.seq (.declBody .functionDecl) (.mark .semicolon)) f.parts :=
    (hwords.seq hrest).ended.of_eq (by simp [parts, gap, leavesFor, Tree.space])
  exact .second (.second (.first (.node b .functionDecl hall ⟨_, _, rfl, rfl⟩)))

/-- The trees of a clause have the form of one. -/
theorem clause_spells (w : String) (l : Quoted) : Spells (.seq (.word w) .str) (clauseTrees w (some l)) :=
  (Spells.word true w).seq (l.spells true)

/-- The tree of a version declaration with a clause has the form of one. -/
theorem versionTree_spells {version encoding : Option Quoted} (h : version.isSome ∨ encoding.isSome) :
    Spells (.declared .versionDecl .versionBody) [versionTree version encoding] := by
  have hclauses : Spells (.either (.row [.word "version", .str, .optional .encoding]) .encoding)
      (clauseTrees "version" version ++ clauseTrees "encoding" encoding) := by
    have hencoding : Spells (.optional .encoding) (clauseTrees "encoding" encoding) := by
      cases encoding with
      | none => exact .second .nothing
      | some e => exact .first (clause_spells "encoding" e)
    cases version with
    | none =>
      cases encoding with
      | none => simp at h
      | some e => exact .second (clause_spells "encoding" e)
    | some l => exact .first ((Spells.word true "version").seq ((l.spells true).seq hencoding))
  have hall : Spells (.seq .versionBody (.mark .semicolon)) (versionParts version encoding) :=
    ((Spells.word false "xquery").seq hclauses).ended.of_eq (by simp [versionParts, gap, leavesFor])
  exact .node false .versionDecl hall ⟨_, _, rfl, rfl⟩

/-- The tree of a version has the form of its declaration. -/
theorem Version.spells {v : Version} (hv : v.Writable) : Spells (.declared .versionDecl .versionBody) [v.tree] :=
  versionTree_spells (hv.imp (by simp) (by simp))

/-- The tree of a module declaration has the form of one. -/
theorem moduleDecl_spells (b : Bool) (qualifier : String) (uri : Quoted) :
    Spells (.declared .moduleDecl .moduleBody) (leavesFor (gap b) ++ [moduleDeclTree qualifier uri]) := by
  have hwords : Spells (.keywords [["module"], ["namespace"]]) _ :=
    (Spells.word false "module").seq ((Spells.word true "namespace").seq .nothing)
  have hequals : Spells (.mark .equals) (leavesFor (gap true) ++ [.mark .equals '=']) := .mark true _ _ rfl (by decide)
  have hrest := (Spells.name true qualifier).seq (hequals.seq (uri.spells true))
  have hall := (hwords.seq hrest).ended
  exact .node b .moduleDecl hall ⟨_, _, rfl, rfl⟩

/-! ## Modules -/

/-- Functions between spaces are a prolog. -/
theorem prolog_spells {fs : List FunctionDecl} (hfs : ∀ f ∈ fs, f.Writable) :
    Spells .prolog (fs.flatMap fun f => [.space, f.tree]) ∧ Spells .prolog (spaced (fs.map FunctionDecl.tree)) := by
  have hbehind : ∀ fs : List FunctionDecl, (∀ f ∈ fs, f.Writable) →
      ∀ us ∈ fs.map fun f => [.space, f.tree], Spells (.declOf Form.otherKinds) us := by
    intro fs hfs us hu
    obtain ⟨f, hf, rfl⟩ := List.mem_map.mp hu
    exact FunctionDecl.spells true (hfs f hf)
  refine ⟨(Spells.none.seq (.many (hbehind fs hfs))).of_eq List.flatMap_def.symm, ?_⟩
  cases fs with
  | nil => exact Spells.none.seq .none
  | cons f fs =>
    have hfirst : ∀ us ∈ [f.tree] :: fs.map fun g => [.space, g.tree], Spells (.declOf Form.otherKinds) us := by
      intro us hu
      rcases List.mem_cons.mp hu with rfl | hu
      · exact FunctionDecl.spells false (hfs f (List.mem_cons_self ..))
      · exact hbehind fs (fun g hg => hfs g (List.mem_cons_of_mem _ hg)) us hu
    exact (Spells.none.seq (.many hfirst)).of_eq (by simp [spaced, List.flatMap_def, Function.comp_def])

/-- A word does not come next behind a gap if it is not the first token there. -/
theorem not_isWordAt_look (b : Bool) {ts : List Token} {word : String}
    (hts : ∀ t, ts.head? = some t → t.isTrivia = false ∧ t.text ≠ word) (offset reached : Nat) :
    ¬ IsWordAt 0 word ((look offset reached (gap b ++ ts)).ahead.map (·.token)) := by
  cases ts with
  | nil =>
    unfold look
    rw [split_trivia (allTrivia_gap b)]
    simp [IsWordAt, Lexeme.split]
  | cons t ts =>
    obtain ⟨ht, hw⟩ := hts t rfl
    obtain ⟨start, hl⟩ := look_cons (allTrivia_gap b) ht offset reached ts
    rw [hl]
    simp [IsWordAt, Token.isWord, hw]

/-- Functions between spaces start with the word of a declaration, if there are any. -/
theorem spaced_head {fs : List FunctionDecl} {t : Token} (h : (tokensOf (spaced (fs.map FunctionDecl.tree))).head? = some t) :
    t = .ofName "declare" := by
  cases fs with
  | nil => cases h
  | cons f fs => exact (Option.some.inj h).symm

namespace Module

/-- What comes behind the version declaration is a library module or a main module. -/
theorem builds_bodyTrees {m : Module} (hm : m.Writable) (offset reached : Nat) :
    ∃ offset' reached', (Form.either .libraryModule (.guard (¬ StartsModule ·) .mainModule)).Builds
      (look offset reached (tokensOf m.bodyTrees)) m.bodyTrees (look offset' reached' []) := by
  obtain ⟨hbehind, hspaced⟩ := prolog_spells hm.functions
  unfold bodyTrees
  cases m.kind with
  | library qualifier uri =>
    have hall := (moduleDecl_spells m.version.isSome qualifier ⟨.double, uri⟩).seq (hbehind.leadNode .prolog)
    obtain ⟨offset', reached', hb⟩ := hall offset reached []
    rw [List.append_nil, List.append_assoc] at hb
    exact ⟨offset', reached', .first hb⟩
  | main =>
    have hhead : ∀ t, (tokensOf (spaced (m.functions.map FunctionDecl.tree))).head? = some t → t.isTrivia = false ∧ t.text ≠ "module" := by
      intro t ht
      rw [spaced_head ht]
      exact ⟨rfl, by decide⟩
    obtain ⟨start, hnode⟩ := builds_node (allTrivia_gap (m.version.isSome && !m.functions.isEmpty)) (fun t ht => (hhead t ht).1) offset reached
    obtain ⟨offset', reached', hb⟩ := hspaced start reached []
    rw [List.append_nil] at hb
    have hbody : (Form.guard (¬ StartsDecl ·) .queryBody).Builds (look offset' reached' []) [] (look offset' reached' []) :=
      .guard (fun h => by simp [StartsDecl, IsWordAt, look, Lexeme.split] at h) (.second (.nothing _))
    have hmain := Form.Builds.seq (hnode .prolog .prolog _ _ hb) hbody
    rw [List.append_nil] at hmain
    refine ⟨offset', reached', .second (.guard (fun h => ?_) ?_)⟩
    · rw [tokensOf_append, tokensOf_gap, tokensOf_cons, Tree.tokens_node, tokensOf_nil, List.append_nil] at h
      exact not_isWordAt_look _ hhead offset reached h.1
    · rw [tokensOf_append, tokensOf_gap, tokensOf_cons, Tree.tokens_node, tokensOf_nil, List.append_nil]
      exact hmain

/-- Without a version declaration the first word is not that of one. -/
theorem not_startsVersion {m : Module} (hv : m.version = none) :
    ¬ StartsVersion ((look 0 0 (tokensOf m.bodyTrees)).ahead.map (·.token)) := by
  have hhead : ∀ t, (tokensOf m.bodyTrees).head? = some t → t.isTrivia = false ∧ t.text ≠ "xquery" := by
    intro t ht
    unfold bodyTrees at ht
    rw [hv] at ht
    cases hk : m.kind with
    | library qualifier uri =>
      rw [hk] at ht
      rw [← Option.some.inj ht]
      exact ⟨rfl, by decide⟩
    | main =>
      rw [hk] at ht
      simp only [Option.isSome_none, Bool.false_and, tokensOf_append, tokensOf_gap, tokensOf_cons, Tree.tokens_node, tokensOf_nil,
        List.append_nil] at ht
      rw [spaced_head ht]
      exact ⟨rfl, by decide⟩
  exact fun h => not_isWordAt_look false hhead 0 0 h.1

/-- The tree of a written module is built of the form of modules. -/
theorem builds {m : Module} (hm : m.Writable) :
    ∃ offset reached, Form.whole.Builds (look 0 0 m.tree.tokens) [m.tree] (look offset reached []) := by
  have hversion : ∃ offset reached, Form.version.Builds (look 0 0 m.tree.tokens) (m.version.map Version.tree).toList
      (look offset reached (tokensOf m.bodyTrees)) := by
    rw [tree, Tree.tokens_node, tokensOf_append]
    cases hv : m.version with
    | none => exact ⟨0, 0, .second (.guard (not_startsVersion hv) (.nothing _))⟩
    | some v =>
      obtain ⟨offset, reached, hb⟩ := Version.spells (hm.version v hv) 0 0 (tokensOf m.bodyTrees)
      exact ⟨offset, reached, .first hb⟩
  obtain ⟨offset, reached, hv⟩ := hversion
  obtain ⟨offset', reached', hb⟩ := builds_bodyTrees hm offset reached
  have hrest := Form.Builds.seq hb (.trivia (look offset' reached' []))
  have htrivia : leavesFor (look offset' reached' []).trivia = [] := rfl
  rw [htrivia, List.append_nil] at hrest
  exact ⟨offset', reached', .leadNode (.seq hv hrest)⟩

end Module

end QueryStubs
