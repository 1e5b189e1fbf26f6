import QueryStubs.Proofs.Written.Trees

/-!
# The text of a written module and its tokens

The tree of a module holds the text that the module is written as (`Module.chars_tree`), and the scanner cuts this text into the tokens
of the tree (`Module.ofSource_source`). Each construct can be put in front of tokens that stay apart if what it ends with cannot go on in
them: that is what the statements with `Apart` say.
-/

namespace QueryStubs

open Grammar (leavesFor)
open Token (charsOf Apart Stops)

/-! ## Names, literals and types -/

/-- The tokens of a name make up its text. -/
theorem QName.chars_tokens (n : QName) : charsOf n.tokens = n.text.toList := by
  obtain ⟨_ | p, l⟩ := n
  · simp [tokens, text, Token.ofName]
  · simp [tokens, text, Token.ofName, Token.ofMark, String.toList_append]

/-- The tokens of a literal make up its source. -/
theorem Quoted.chars_tokens (l : Quoted) : charsOf l.tokens = l.source.toList := by
  simp [tokens, source, Token.ofQuote, String.toList_append]

/-- Joined rows of tokens have the joined characters. -/
theorem Token.chars_intercalate (sep : List Token) (tss : List (List Token)) :
    charsOf (sep.intercalate tss) = (charsOf sep).intercalate (tss.map charsOf) := by
  induction tss with
  | nil => rfl
  | cons ts tss ih =>
    cases tss with
    | nil => simp
    | cons us tss =>
      rw [List.intercalate_cons_cons, charsOf_append, charsOf_append, ih]
      simp [List.intercalate_cons_cons]

/-- The tokens of a kind test make up its source. -/
theorem KindTest.chars_tokens (k : KindTest) (names : List QName) : charsOf (k.tokens names) = (k.source names).toList := by
  have hargs : charsOf (argumentTokens names) = (String.intercalate "," (names.map QName.text)).toList := by
    rw [argumentTokens, Token.chars_intercalate, String.toList_intercalate, List.map_map, List.map_map]
    exact congrArg _ (List.map_congr_left fun n _ => n.chars_tokens)
  simp [tokens, source, hargs, Token.ofName, Token.ofMark, String.toList_append]

/-- A qualified name stays apart from what is no character of a name. -/
theorem QName.apart {n : QName} {ts : List Token} (hn : n.Writable) (h : Apart ts) (hs : Stops isNameChar ts) :
    Apart (n.tokens ++ ts) := by
  obtain ⟨_ | p, l⟩ := n
  · exact h.name hn.1 hs
  · have hl : Apart (.ofName l :: ts) := h.name hn.1 hs
    have hcolon : Apart (.ofMark .colon ':' :: .ofName l :: ts) := hl.colon (Token.stops_name _ hn.1 (Token.ne_of_isNameStart rfl))
    exact hcolon.name (hn.2 p rfl) (Token.stops_mark _ _ rfl)

/-- A qualified name starts with the start of a name. -/
theorem QName.stops {n : QName} {p : Char → Bool} (ts : List Token) (hn : n.Writable) (h : ∀ c, isNameStart c = true → p c = false) :
    Stops p (n.tokens ++ ts) := by
  obtain ⟨_ | q, l⟩ := n
  · exact Token.stops_name _ hn.1 h
  · exact Token.stops_name _ (hn.2 q rfl) h

/-- A literal stays apart from what follows unless that starts with its mark. -/
theorem Quoted.apart (l : Quoted) {ts : List Token} (h : Apart ts) (hs : Stops (· = l.quote.char) ts) : Apart (l.tokens ++ ts) := by
  rw [tokens, List.cons_append, List.append_assoc]
  exact h.quoted hs

/-- The word of a kind test is a name. -/
theorem KindTest.isNCName_keyword (k : KindTest) : IsNCName k.keyword := by
  cases k <;> decide

/-- The names in the parentheses of a kind test stay apart from each other and from the parenthesis behind them. -/
theorem arguments_apart {names : List QName} {ts : List Token} (hn : ∀ n ∈ names, n.Writable) (h : Apart ts) (hs : Stops isNameChar ts) :
    Apart (argumentTokens names ++ ts) := by
  unfold argumentTokens
  induction names with
  | nil => exact h
  | cons n names ih =>
    have hrest := ih fun m hm => hn m (List.mem_cons_of_mem _ hm)
    have hw := hn n (List.mem_cons_self ..)
    cases names with
    | nil =>
      rw [List.map_cons, List.map_nil, List.intercalate_singleton]
      exact n.apart hw h hs
    | cons m names =>
      rw [List.map_cons, List.map_cons, List.intercalate_cons_cons, List.append_assoc, List.append_assoc]
      rw [List.map_cons] at hrest
      exact QName.apart hw (hrest.mark (c := ',') rfl) (Token.stops_mark _ _ rfl)

/-- A kind test stays apart from what follows. -/
theorem KindTest.apart {k : KindTest} {names : List QName} {ts : List Token} (hn : ∀ n ∈ names, n.Writable) (h : Apart ts) :
    Apart (k.tokens names ++ ts) := by
  have hclose : Apart (.ofMark .parenClose ')' :: ts) := h.mark rfl
  have hargs := arguments_apart hn hclose (Token.stops_mark _ _ rfl)
  have hstops : Stops (· = ':') (argumentTokens names ++ .ofMark .parenClose ')' :: ts) := by
    cases names with
    | nil => exact Token.stops_mark _ _ rfl
    | cons n names =>
      have hw := hn n (List.mem_cons_self ..)
      cases names with
      | nil =>
        rw [argumentTokens, List.map_cons, List.map_nil, List.intercalate_singleton]
        exact n.stops _ hw (Token.ne_of_isNameStart rfl)
      | cons m names =>
        rw [argumentTokens, List.map_cons, List.map_cons, List.intercalate_cons_cons, List.append_assoc, List.append_assoc]
        exact n.stops _ hw (Token.ne_of_isNameStart rfl)
  have hopen := hargs.paren hstops
  simp only [tokens, List.cons_append, List.append_assoc, List.nil_append]
  exact hopen.name k.isNCName_keyword (Token.stops_mark _ _ rfl)

/-- The text of a kind test is cut into its tokens. -/
theorem KindTest.ofSource_source {k : KindTest} {names : List QName} (hn : ∀ n ∈ names, n.Writable) :
    Token.ofSource (k.source names) = k.tokens names := by
  have h := KindTest.apart (k := k) hn .nil
  rw [List.append_nil, Apart, KindTest.chars_tokens] at h
  exact h

/-- The names in the parentheses of a kind test have names, colons and commas only. -/
theorem kind_of_mem_arguments {names : List QName} {t : Token} (h : t ∈ argumentTokens names) :
    t.kind = .name ∨ t.kind = .colon ∨ t.kind = .comma := by
  have hname : ∀ n : QName, ∀ t ∈ n.tokens, t.kind = .name ∨ t.kind = .colon ∨ t.kind = .comma := by
    rintro ⟨_ | p, l⟩ t ht
    · rw [List.mem_singleton.mp ht]
      exact .inl rfl
    · simp only [QName.tokens, List.mem_cons, List.not_mem_nil, or_false] at ht
      rcases ht with rfl | rfl | rfl
      · exact .inl rfl
      · exact .inr (.inl rfl)
      · exact .inl rfl
  unfold argumentTokens at h
  induction names with
  | nil => cases h
  | cons n names ih =>
    cases names with
    | nil =>
      rw [List.map_cons, List.map_nil, List.intercalate_singleton] at h
      exact hname n t h
    | cons m names =>
      rw [List.map_cons, List.map_cons, List.intercalate_cons_cons] at h
      simp only [List.mem_append, List.mem_singleton] at h
      rcases h with (h | rfl) | h
      · exact hname n t h
      · exact .inr (.inr rfl)
      · exact ih h

/-- The tree of a kind test has its tokens. -/
theorem KindTest.tokens_leaves (k : KindTest) (names : List QName) : tokensOf (keywordLeaves (k.tokens names)) = k.tokens names := by
  have hrest : ∀ t ∈ Token.ofMark .parenOpen '(' :: (argumentTokens names ++ [.ofMark .parenClose ')']), t.kind ≠ .keyword := by
    intro t ht
    simp only [List.mem_cons, List.mem_append, List.not_mem_nil, or_false] at ht
    rcases ht with rfl | ht | rfl
    · decide
    · rcases kind_of_mem_arguments ht with h | h | h <;> simp [h]
    · decide
  rw [tokens, keywordLeaves, tokensOf_cons, tokensOf_leavesFor hrest, Tree.tokens_leaf]
  rfl

/-- The node of a name has its tokens. -/
theorem QName.tokens_tree (n : QName) : n.tree.tokens = n.tokens := by
  rw [tree, Tree.tokens_node]
  obtain ⟨_ | p, l⟩ := n <;> rfl

/-- The node of a literal has its tokens. -/
theorem Quoted.tokens_tree (l : Quoted) : l.tree.tokens = l.tokens := by
  have hquote : (Token.ofQuote l.quote).kind ≠ .keyword := by cases l.quote <;> decide
  rw [tree, Tree.tokens_node]
  refine tokensOf_leavesFor fun t ht => ?_
  simp only [tokens, List.mem_cons, List.mem_append, List.not_mem_nil, or_false] at ht
  rcases ht with rfl | ht | rfl
  · exact hquote
  · cases hb : Text.doubled l.quote.char l.text.toList with
    | nil =>
      rw [hb] at ht
      cases ht
    | cons c cs =>
      rw [hb] at ht
      rw [List.mem_singleton.mp ht]
      simp
  · exact hquote

/-- The tree of an item type holds its written form. -/
theorem ItemType.chars_tree {t : ItemType} (ht : t.Writable) : charsOf t.tree.tokens = t.text.toList := by
  cases t with
  | atomic n => simp [tree, text, QName.tokens_tree, QName.chars_tokens]
  | kindTest k s =>
    obtain ⟨names, hn, rfl⟩ := ht
    rw [tree, Tree.tokens_node, KindTest.ofSource_source hn, KindTest.tokens_leaves, KindTest.chars_tokens]
    rfl
  | anyItem => decide
  | emptySequence => decide

/-- An item type stays apart from what is no character of a name. -/
theorem ItemType.apart {t : ItemType} {ts : List Token} (ht : t.Writable) (h : Apart ts) (hs : Stops isNameChar ts) :
    Apart (t.tree.tokens ++ ts) := by
  have hclose : Apart (.ofMark .parenClose ')' :: ts) := h.mark rfl
  have hopen := hclose.paren (Token.stops_mark _ _ rfl)
  cases t with
  | atomic n =>
    have hn := n.apart ht h hs
    simpa [tree, QName.tokens_tree] using hn
  | kindTest k s =>
    obtain ⟨names, hn, rfl⟩ := ht
    rw [tree, Tree.tokens_node, KindTest.ofSource_source hn, KindTest.tokens_leaves]
    exact KindTest.apart hn h
  | anyItem => exact hopen.name (by decide) (Token.stops_mark _ _ rfl)
  | emptySequence => exact hopen.name (by decide) (Token.stops_mark _ _ rfl)

/-- An item type starts with the start of a name. -/
theorem ItemType.stops {t : ItemType} {p : Char → Bool} (ts : List Token) (ht : t.Writable) (h : ∀ c, isNameStart c = true → p c = false) :
    Stops p (t.tree.tokens ++ ts) := by
  cases t with
  | atomic n =>
    have hn := n.stops ts ht h
    simpa [tree, QName.tokens_tree] using hn
  | kindTest k s =>
    obtain ⟨names, hn, rfl⟩ := ht
    rw [tree, Tree.tokens_node, KindTest.ofSource_source hn, KindTest.tokens_leaves]
    exact Token.stops_name _ k.isNCName_keyword h
  | anyItem => exact Token.stops_name _ (by decide) h
  | emptySequence => exact Token.stops_name _ (by decide) h

/-- The tokens of an occurrence make up its indicator. -/
theorem Occurrence.chars_trees (o : Occurrence) : charsOf (tokensOf o.trees) = o.indicator.toList := by
  cases o <;> decide

/-- An occurrence stays apart from what follows. -/
theorem Occurrence.apart (o : Occurrence) {ts : List Token} (h : Apart ts) : Apart (tokensOf o.trees ++ ts) := by
  cases o with
  | exactlyOne => exact h
  | optional => exact h.mark (c := '?') rfl
  | zeroOrMore => exact h.mark (c := '*') rfl
  | oneOrMore => exact h.mark (c := '+') rfl

/-- A name does not go on behind an occurrence, nor where there is none unless what follows goes on. -/
theorem Occurrence.stops (o : Occurrence) {ts : List Token} (hs : Stops isNameChar ts) : Stops isNameChar (tokensOf o.trees ++ ts) := by
  cases o with
  | exactlyOne => exact hs
  | optional => exact Token.stops_mark (c := '?') .question ts rfl
  | zeroOrMore => exact Token.stops_mark (c := '*') .star ts rfl
  | oneOrMore => exact Token.stops_mark (c := '+') .plus ts rfl

/-- A type declaration holds what was written. -/
theorem typeTrees_chars {t : Option SequenceType} (ht : ∀ u ∈ t, u.Writable) :
    charsOf (tokensOf (typeTrees t)) = (typeSource t).toList := by
  cases t with
  | none => rfl
  | some t =>
    have hitem := ItemType.chars_tree (ht t rfl).1
    simp [typeTrees, typeSource, SequenceType.tree, SequenceType.text, hitem, Occurrence.chars_trees, String.toList_append,
      Token.space, Token.ofName]

/-- A type declaration stays apart from what is no character of a name. -/
theorem typeTrees_apart {t : Option SequenceType} {ts : List Token} (ht : ∀ u ∈ t, u.Writable) (h : Apart ts)
    (hs : Stops isNameChar ts) : Apart (tokensOf (typeTrees t) ++ ts) := by
  cases t with
  | none => exact h
  | some t =>
    obtain ⟨hitem, -⟩ := ht t rfl
    have hmark := t.occurrence.apart h
    have htype := ItemType.apart hitem hmark (t.occurrence.stops hs)
    have hspace := htype.space (ItemType.stops _ hitem Token.isBlank_of_isNameStart)
    have has : Apart (.ofName "as" :: .space :: (t.item.tree.tokens ++ (tokensOf t.occurrence.trees ++ ts))) :=
      hspace.name (by decide) (Token.stops_space _ rfl)
    have hall := has.space (Token.stops_name _ (by decide) Token.isBlank_of_isNameStart)
    simpa [typeTrees, SequenceType.tree] using hall

/-- A name does not go on in a type, nor where there is none unless what follows goes on. -/
theorem typeTrees_stops (t : Option SequenceType) {ts : List Token} (hs : Stops isNameChar ts) :
    Stops isNameChar (tokensOf (typeTrees t) ++ ts) := by
  cases t with
  | none => exact hs
  | some t => exact Token.stops_space _ rfl

/-! ## Declarations -/

/-- The tokens of a parameter make up its source. -/
theorem Param.chars_tree {p : Param} (hp : p.Writable) : charsOf p.tree.tokens = p.source.toList := by
  have htype := typeTrees_chars hp.2
  simp [tree, source, QName.tokens_tree, QName.chars_tokens, htype, String.toList_append, Token.ofMark]

/-- A parameter stays apart from what follows unless a name would go on there. -/
theorem Param.apart {p : Param} {ts : List Token} (hp : p.Writable) (h : Apart ts) (hs : Stops isNameChar ts) :
    Apart (p.tree.tokens ++ ts) := by
  have htype := typeTrees_apart hp.2 h hs
  have hname := QName.apart hp.1 htype (typeTrees_stops p.type hs)
  have hall : Apart (.ofMark .dollar '$' :: (p.name.tokens ++ (tokensOf (typeTrees p.type) ++ ts))) := hname.mark rfl
  simpa [tree, QName.tokens_tree] using hall

/-- Parameters are written with a comma and a space between any two. -/
theorem paramTrees_chars {ps : List Param} (hps : ∀ p ∈ ps, p.Writable) :
    charsOf (tokensOf (paramTrees ps)) = (String.intercalate ", " (ps.map Param.source)).toList := by
  rw [String.toList_intercalate, List.map_map]
  cases ps with
  | nil => rfl
  | cons p ps =>
    rw [paramTrees, tokensOf_cons, Token.charsOf_append, Param.chars_tree (hps p (List.mem_cons_self ..))]
    induction ps generalizing p with
    | nil => simp
    | cons q ps ih =>
      have hq := Param.chars_tree (hps q (by simp))
      have hrest := ih q fun r hr => hps r (by
        rcases List.mem_cons.mp hr with rfl | hr
        · simp
        · simp [hr])
      rw [List.map_cons, List.map_cons, List.intercalate_cons_cons, ← List.map_cons, ← hrest]
      simp [hq, Token.ofMark, Token.space]

/-- Parameters stay apart from what follows unless a name would go on there. -/
theorem paramTrees_apart {ps : List Param} {ts : List Token} (hps : ∀ p ∈ ps, p.Writable) (h : Apart ts) (hs : Stops isNameChar ts) :
    Apart (tokensOf (paramTrees ps) ++ ts) := by
  have hbehind : ∀ ps : List Param, (∀ p ∈ ps, p.Writable) →
      Apart (tokensOf (ps.flatMap fun q => [.mark .comma ',', .space, q.tree]) ++ ts) ∧
        Stops isNameChar (tokensOf (ps.flatMap fun q => [.mark .comma ',', .space, q.tree]) ++ ts) := by
    intro ps hps
    induction ps with
    | nil => exact ⟨h, hs⟩
    | cons q ps ih =>
      obtain ⟨hrest, hstops⟩ := ih fun r hr => hps r (List.mem_cons_of_mem _ hr)
      have hq := Param.apart (hps q (List.mem_cons_self ..)) hrest hstops
      have hspace : Apart (.space :: (q.tree.tokens ++ _)) := hq.space (Token.stops_mark _ _ rfl)
      have hall : Apart (.ofMark .comma ',' :: .space :: (q.tree.tokens ++ _)) := hspace.mark rfl
      refine ⟨by simpa using hall, Token.stops_mark _ _ rfl⟩
  cases ps with
  | nil => exact h
  | cons p ps =>
    obtain ⟨hrest, hstops⟩ := hbehind ps fun r hr => hps r (List.mem_cons_of_mem _ hr)
    have hp := Param.apart (hps p (List.mem_cons_self ..)) hrest hstops
    simpa [paramTrees] using hp

/-- Parameters start with a dollar sign, if there are any. -/
theorem paramTrees_stops (ps : List Param) {ts : List Token} (hs : Stops (· = ':') ts) :
    Stops (· = ':') (tokensOf (paramTrees ps) ++ ts) := by
  cases ps with
  | nil => exact hs
  | cons p ps => exact Token.stops_mark _ _ rfl

/-- The tokens of a body make up its source. -/
theorem FunctionBody.chars_tree (b : FunctionBody) : charsOf b.tree.tokens = b.source.toList := by
  cases b <;> decide

/-- A body stays apart from what follows and does not start with a blank. -/
theorem FunctionBody.apart (b : FunctionBody) {ts : List Token} (h : Apart ts) (hs : Stops isNameChar ts) :
    Apart (b.tree.tokens ++ ts) ∧ Stops isBlank (b.tree.tokens ++ ts) := by
  cases b with
  | enclosed =>
    have hclose : Apart (.ofMark .braceClose '\x7d' :: ts) := h.mark rfl
    have hspace := hclose.space (Token.stops_mark _ _ rfl)
    exact ⟨hspace.mark (c := '\x7b') rfl, Token.stops_mark _ _ rfl⟩
  | external =>
    have hw : IsNCName "external" := by decide
    exact ⟨h.name hw hs, Token.stops_name _ hw Token.isBlank_of_isNameStart⟩

/-- A word and a space stay apart from what starts with no blank. -/
theorem word_apart {w : String} {ts : List Token} (hw : IsNCName w) (h : Apart ts) (hs : Stops isBlank ts) :
    Apart (.ofName w :: .space :: ts) ∧ Stops isBlank (.ofName w :: .space :: ts) :=
  ⟨(h.space hs).name hw (Token.stops_space _ rfl), Token.stops_name _ hw Token.isBlank_of_isNameStart⟩

/-- What stands between spaces: the tokens stay apart from whatever follows, and no blank comes first. -/
structure Tree.Stands (u : Tree) : Prop where
  apart : ∀ ts, Apart ts → Apart (u.tokens ++ ts)
  stops : ∀ ts, Stops isBlank (u.tokens ++ ts)

/-- The tokens of a function make up its source. -/
theorem FunctionDecl.chars_tree {f : FunctionDecl} (hf : f.Writable) : charsOf f.tree.tokens = f.source.toList := by
  have hparams := paramTrees_chars hf.params
  have htype := typeTrees_chars hf.returnType
  unfold source
  -- simp would look into the joined parameters for an append
  generalize String.intercalate ", " (f.params.map Param.source) = params at hparams ⊢
  simp [tree, parts, paramListTree, QName.tokens_tree, QName.chars_tokens, FunctionBody.chars_tree, hparams, htype, String.toList_append,
    Token.ofName, Token.space, Token.ofMark]

/-- A function can stand between spaces. -/
theorem FunctionDecl.stands {f : FunctionDecl} (hf : f.Writable) : f.tree.Stands := by
  have hdeclare : IsNCName "declare" := by decide
  have hfunction : IsNCName "function" := by decide
  refine ⟨fun ts h => ?_, fun ts => Token.stops_name _ hdeclare Token.isBlank_of_isNameStart⟩
  have hsemicolon : Apart (.ofMark .semicolon ';' :: ts) := h.mark rfl
  obtain ⟨hbody, hblank⟩ := f.body.apart hsemicolon (Token.stops_mark _ _ rfl)
  have hspace := hbody.space hblank
  have htype := typeTrees_apart hf.returnType hspace (Token.stops_space _ rfl)
  have hclose : Apart (.ofMark .parenClose ')' :: _) := htype.mark rfl
  have hparams := paramTrees_apart hf.params hclose (Token.stops_mark _ _ rfl)
  have hopen := hparams.paren (paramTrees_stops f.params (Token.stops_mark _ _ rfl))
  have hname := QName.apart hf.name hopen (Token.stops_mark _ _ rfl)
  obtain ⟨hword, hstops⟩ := word_apart hfunction hname (QName.stops _ hf.name Token.isBlank_of_isNameStart)
  obtain ⟨hall, -⟩ := word_apart hdeclare hword hstops
  simpa [tree, parts, paramListTree, QName.tokens_tree] using hall

/-- The tokens of a clause make up its source. -/
theorem clauseTrees_chars (w : String) (s : Option Quoted) : charsOf (tokensOf (clauseTrees w s)) = (Quoted.clause w s).toList := by
  cases s with
  | none => rfl
  | some l =>
    simp [clauseTrees, Quoted.clause, Quoted.tokens_tree, Quoted.chars_tokens, String.toList_append, Token.space, Token.ofName]

/-- No quotation mark is what a space or a semicolon is written with. -/
theorem Quote.ne_char {c : Char} (q : Quote) (h : c ≠ '\x22' ∧ c ≠ '\x27') : decide (c = q.char) = false := by
  cases q with
  | double => exact decide_eq_false h.1
  | single => exact decide_eq_false h.2

/-- A clause stays apart from what follows unless that starts with a mark of quotation. -/
theorem clauseTrees_apart {w : String} (s : Option Quoted) {ts : List Token} (hw : IsNCName w) (h : Apart ts)
    (hs : ∀ q : Quote, Stops (· = q.char) ts) : Apart (tokensOf (clauseTrees w s) ++ ts) := by
  cases s with
  | none => exact h
  | some l =>
    have hliteral := l.apart h (hs _)
    have hstops : Stops isBlank (l.tokens ++ ts) := Token.stops_quote l.quote _ (by cases l.quote <;> rfl)
    obtain ⟨hword, hblank⟩ := word_apart hw hliteral hstops
    have hall := hword.space hblank
    simpa [clauseTrees, Quoted.tokens_tree] using hall

/-- Nothing that a space ends goes on in a clause, nor where there is none unless what follows goes on. -/
theorem clauseTrees_stops {p : Char → Bool} (w : String) (s : Option Quoted) {ts : List Token} (hp : p ' ' = false) (hs : Stops p ts) :
    Stops p (tokensOf (clauseTrees w s) ++ ts) := by
  cases s with
  | none => exact hs
  | some s => exact Token.stops_space _ hp

/-- The tokens of a version declaration with some clauses make up its source. -/
theorem versionTree_chars (version encoding : Option Quoted) : charsOf (versionTree version encoding).tokens =
    ("xquery" ++ Quoted.clause "version" version ++ Quoted.clause "encoding" encoding ++ ";").toList := by
  simp [versionTree, versionParts, clauseTrees_chars, String.toList_append, Token.ofName, Token.ofMark]

/-- The tokens of a version make up its source. -/
theorem Version.chars_tree (v : Version) : charsOf v.tree.tokens = v.source.toList := by
  rw [tree, versionTree_chars, source, clauseSource_eq, clauseSource_eq]

/-- A version declaration can stand between spaces. -/
theorem versionTree_stands (version encoding : Option Quoted) : (versionTree version encoding).Stands := by
  have hxquery : IsNCName "xquery" := by decide
  refine ⟨fun ts h => ?_, fun ts => Token.stops_name _ hxquery Token.isBlank_of_isNameStart⟩
  have hsemicolon : Apart (.ofMark .semicolon ';' :: ts) := h.mark rfl
  have hends : ∀ q : Quote, Stops (· = q.char) (.ofMark .semicolon ';' :: ts) := fun q => Token.stops_mark _ _ (q.ne_char (by decide))
  have hencoding := clauseTrees_apart (w := "encoding") encoding (by decide) hsemicolon hends
  have hversion := clauseTrees_apart (w := "version") version (by decide) hencoding fun q =>
    clauseTrees_stops _ _ (q.ne_char (by decide)) (hends q)
  have hall := hversion.name hxquery (clauseTrees_stops _ _ rfl (clauseTrees_stops _ _ rfl (Token.stops_mark _ _ rfl)))
  simpa [versionTree, versionParts] using hall

/-- The tokens of a module declaration make up its source. -/
theorem moduleDecl_chars (qualifier : String) (uri : Quoted) :
    charsOf (moduleDeclTree qualifier uri).tokens = ("module namespace " ++ qualifier ++ " = " ++ uri.source ++ ";").toList := by
  simp [moduleDeclTree, moduleDeclParts, Quoted.tokens_tree, Quoted.chars_tokens, String.toList_append, Token.ofName, Token.space,
    Token.ofMark]

/-- A module declaration can stand between spaces. -/
theorem moduleDecl_stands {qualifier : String} (uri : Quoted) (hq : IsNCName qualifier) : (moduleDeclTree qualifier uri).Stands := by
  have hmodule : IsNCName "module" := by decide
  have hnamespace : IsNCName "namespace" := by decide
  refine ⟨fun ts h => ?_, fun ts => Token.stops_name _ hmodule Token.isBlank_of_isNameStart⟩
  have hsemicolon : Apart (.ofMark .semicolon ';' :: ts) := h.mark rfl
  have hliteral := uri.apart hsemicolon (Token.stops_mark _ _ (uri.quote.ne_char (by decide)))
  have hspace := hliteral.space (Token.stops_quote uri.quote _ (by cases uri.quote <;> rfl))
  have hequals : Apart (.ofMark .equals '=' :: .space :: _) := hspace.mark rfl
  obtain ⟨hqualifier, hblank⟩ := word_apart hq hequals (Token.stops_mark _ _ rfl)
  obtain ⟨hword, hblank⟩ := word_apart hnamespace hqualifier hblank
  obtain ⟨hall, -⟩ := word_apart hmodule hword hblank
  simpa [moduleDeclTree, moduleDeclParts, Quoted.tokens_tree] using hall

/-! ## Modules -/

/-- What stands between spaces stays apart when it is put between spaces. -/
theorem spaced_apart {us : List Tree} (h : ∀ u ∈ us, u.Stands) : Apart (tokensOf (spaced us)) := by
  have hbehind : ∀ us : List Tree, (∀ u ∈ us, u.Stands) → Apart (us.flatMap fun v => .space :: v.tokens) := by
    intro us h
    induction us with
    | nil => exact .nil
    | cons u us ih =>
      obtain ⟨hapart, hstops⟩ := h u (List.mem_cons_self ..)
      have hrest := hapart _ (ih fun v hv => h v (List.mem_cons_of_mem _ hv))
      exact hrest.space (hstops _)
  cases us with
  | nil => exact .nil
  | cons u us =>
    rw [tokensOf_spaced]
    exact (h u (List.mem_cons_self ..)).apart _ (hbehind us fun v hv => h v (List.mem_cons_of_mem _ hv))

/-- The characters of trees between spaces are those of the trees between spaces. -/
theorem spaced_chars (us : List Tree) : charsOf (tokensOf (spaced us)) = [' '].intercalate (us.map fun u => charsOf u.tokens) := by
  cases us with
  | nil => rfl
  | cons u us =>
    rw [tokensOf_spaced]
    induction us generalizing u with
    | nil => simp
    | cons v us ih =>
      have hv := ih v
      rw [List.map_cons] at hv
      rw [List.map_cons, List.map_cons, List.intercalate_cons_cons, ← hv]
      simp [Token.space]

namespace Module

/-- Every declaration of a module that can be written stands between spaces. -/
theorem stands_declTrees {m : Module} (hm : m.Writable) : ∀ u ∈ m.declTrees, u.Stands := by
  intro u hu
  simp only [declTrees, List.mem_append] at hu
  rcases hu with hu | hu | hu
  · obtain ⟨v, -, rfl⟩ := Option.map_eq_some_iff.mp (Option.mem_toList.mp hu)
    exact versionTree_stands _ _
  · have hkind := hm.kind
    cases hk : m.kind with
    | main =>
      rw [hk] at hu
      cases hu
    | library qualifier uri =>
      rw [hk] at hu hkind
      rw [List.mem_singleton.mp hu]
      exact moduleDecl_stands _ hkind
  · obtain ⟨f, hf, rfl⟩ := List.mem_map.mp hu
    exact FunctionDecl.stands (hm.functions f hf)

/-- The tree of a module holds the text that the module is written as. -/
theorem chars_tree {m : Module} (hm : m.Writable) : charsOf m.tree.tokens = m.source.toList := by
  rw [tokens_tree, spaced_chars, source, String.toList_intercalate]
  refine congrArg _ ?_
  have hfunctions : m.functions.map (fun f => charsOf f.tree.tokens) = m.functions.map fun f => f.source.toList :=
    List.map_congr_left fun f hf => FunctionDecl.chars_tree (hm.functions f hf)
  have hversion : (m.version.map Version.tree).toList.map (fun u => charsOf u.tokens) =
      (m.version.map Version.source).toList.map String.toList := by
    cases m.version with
    | none => rfl
    | some v => simp [Version.chars_tree]
  rw [declTrees, List.map_append, List.map_append, List.map_append, List.map_append, hversion, List.append_assoc]
  refine congrArg _ ?_
  cases m.kind with
  | main => simpa [ModuleKind.source?] using hfunctions
  | library qualifier uri => simpa [ModuleKind.source?, moduleDecl_chars, literalSource_eq, String.toList_append] using hfunctions

/-- A written module is cut into the tokens of its tree. -/
theorem ofSource_source {m : Module} (hm : m.Writable) : Token.ofSource m.source = m.tree.tokens := by
  have h := spaced_apart (stands_declTrees hm)
  rw [← tokens_tree, Apart, chars_tree hm] at h
  exact h

end Module

end QueryStubs
