import QueryStubs.Proofs.Parsed
import QueryStubs.Proofs.Twin.Module
import QueryStubs.Proofs.Views.Similar

/-!
# Sources that differ in trivia

Two sources are respaced versions of each other if they have the same tokens but for trivia and trivia stand beside the same colons
(`Respaced`). Then the readings of both start at corresponding places (`Respaced.start`) and so come to corresponding trees and reports
(`Respaced.read`): a report starts where the corresponding report starts, at the same token or at the end, and it ends where that ends.
-/

namespace QueryStubs

open Grammar

/-- The tokens of a source that are no trivia, each with the trivia in front of it. -/
def lexemesOf (source : String) : List Lexeme := (Lexeme.ofTokens (Token.ofSource source)).1

/-- The trivia behind the last of them. -/
def triviaAtEnd (source : String) : List Token := (Lexeme.ofTokens (Token.ofSource source)).2

/-- The trivia right in front of the token in a place, or behind the last token. -/
def triviaBefore (source : String) (i : Nat) : List Token :=
  match (lexemesOf source)[i]? with
  | some l => l.lead
  | none => triviaAtEnd source

/-- The same tokens but for trivia, with trivia beside the same colons. -/
structure Respaced (s t : String) : Prop where
  tokens : (Token.ofSource s).filter (!·.isTrivia) = (Token.ofSource t).filter (!·.isTrivia)
  colons : ∀ (i : Nat) (l : Lexeme), (lexemesOf s)[i]? = some l → l.kind = .colon →
    (triviaBefore s i = [] ↔ triviaBefore t i = []) ∧ (triviaBefore s (i + 1) = [] ↔ triviaBefore t (i + 1) = [])

/-- Whether trivia stand beside the token in a place in both sources or in none, on either side of it. -/
def agreeBeside (s t : String) (i : Nat) : Bool :=
  (triviaBefore s i).isEmpty == (triviaBefore t i).isEmpty && (triviaBefore s (i + 1)).isEmpty == (triviaBefore t (i + 1)).isEmpty

/-- It can be computed whether sources are respaced versions of each other. -/
theorem Respaced.of_check {s t : String} (htokens : (Token.ofSource s).filter (!·.isTrivia) = (Token.ofSource t).filter (!·.isTrivia))
    (hcolons : ((List.range (lexemesOf s).length).all fun i => !(lexemesOf s)[i]?.any (·.kind = .colon) || agreeBeside s t i) = true) :
    Respaced s t := by
  refine ⟨htokens, fun i l hl hk => ?_⟩
  have hi := List.all_eq_true.mp hcolons i (List.mem_range.mpr (List.getElem?_eq_some_iff.mp hl).1)
  rw [hl, Option.any_some, decide_eq_true hk, Bool.not_true, Bool.false_or, agreeBeside, Bool.and_eq_true, beq_iff_eq, beq_iff_eq] at hi
  exact ⟨by rw [← List.isEmpty_iff, ← List.isEmpty_iff, hi.1], by rw [← List.isEmpty_iff, ← List.isEmpty_iff, hi.2]⟩

/-- Places where the same token starts in both sources, or the ends of both. -/
def SameStart (s t : String) (p q : Nat) : Prop :=
  (∃ (i : Nat) (l k : Lexeme), (lexemesOf s)[i]? = some l ∧ (lexemesOf t)[i]? = some k ∧ p = l.span.start ∧ q = k.span.start) ∨
    p = s.utf8ByteSize ∧ q = t.utf8ByteSize

/-- Places where the same token ends in both sources, or the ends of both. -/
def SameStop (s t : String) (p q : Nat) : Prop :=
  (∃ (i : Nat) (l k : Lexeme), (lexemesOf s)[i]? = some l ∧ (lexemesOf t)[i]? = some k ∧ p = l.span.stop ∧ q = k.span.stop) ∨
    p = s.utf8ByteSize ∧ q = t.utf8ByteSize

/-- Ranges that start and end at the same tokens. -/
def SameRange (s t : String) (a b : Span) : Prop := SameStart s t a.start b.start ∧ SameStop s t a.stop b.stop

/-- Reports that say the same of the same tokens. -/
structure SameReport (s t : String) (r q : Diagnostic) : Prop where
  kind : r.kind = q.kind
  message : r.message = q.message
  span : SameRange s t r.span q.span
  related : List.Forall₂ (fun a b : Related => a.message = b.message ∧ SameRange s t a.span b.span) r.related q.related

/-! ## Lexemes of a source -/

/-- The text of a literal touches the mark before it. -/
theorem Grammar.Aligned.touches {ls : List Lexeme} (h : Aligned ls) : ∀ l ∈ ls, l.kind = .literalText → l.touches = true := by
  have hquote : ∀ k : TokenKind, k.isQuote = true → k ≠ .literalText := by
    rintro k hk rfl
    cases hk
  induction h with
  | nil => exact List.forall_mem_nil _
  | plain hp _ ih => exact List.forall_mem_cons.mpr ⟨fun hk => by simp [TokenKind.isPlain, hk] at hp, ih⟩
  | emptyLiteral hq hk _ _ ih =>
    refine List.forall_mem_cons.mpr ⟨fun h => absurd h (hquote _ hq), List.forall_mem_cons.mpr ⟨fun h => ?_, ih⟩⟩
    exact absurd (hk ▸ h) (hquote _ hq)
  | literal hq hb hbt hk _ _ ih =>
    refine List.forall_mem_cons.mpr ⟨fun h => absurd h (hquote _ hq), List.forall_mem_cons.mpr ⟨fun _ => hbt, ?_⟩⟩
    exact List.forall_mem_cons.mpr ⟨fun h => absurd (hk ▸ h) (hquote _ hq), ih⟩

/-- Lexemes that stand in order lie behind the place and within the source. -/
theorem Grammar.Ordered.bounds {limit place : Nat} {ls : List Lexeme} (h : Ordered limit place ls) :
    ∀ l ∈ ls, place ≤ l.span.start ∧ l.span.start < l.span.stop ∧ l.span.stop ≤ limit := by
  induction ls generalizing place with
  | nil => exact List.forall_mem_nil _
  | cons l ls ih =>
    obtain ⟨h1, h2, h3⟩ := h
    have hstop : l.span.stop ≤ limit := by
      cases ls with
      | nil => exact h3
      | cons k ks =>
        obtain ⟨hk1, hk2, hk3⟩ := ih h3 k (List.mem_cons_self ..)
        omega
    refine List.forall_mem_cons.mpr ⟨⟨h1, h2, hstop⟩, fun k hk => ?_⟩
    obtain ⟨hk1, hk2, hk3⟩ := ih h3 k hk
    exact ⟨by omega, hk2, hk3⟩

/-- Of two lexemes in order the first ends before the second starts. -/
theorem Grammar.Ordered.stop_le {limit place : Nat} {ls : List Lexeme} (h : Ordered limit place ls) {i j : Nat} (hij : i < j)
    {l k : Lexeme} (hl : ls[i]? = some l) (hk : ls[j]? = some k) : l.span.stop ≤ k.span.start := by
  induction ls generalizing place i j with
  | nil => cases hl
  | cons m ls ih =>
    obtain ⟨-, -, h3⟩ := h
    obtain ⟨j, rfl⟩ := Nat.exists_eq_succ_of_ne_zero (Nat.ne_of_gt (Nat.lt_of_le_of_lt (Nat.zero_le i) hij))
    cases i with
    | zero =>
      cases hl
      exact (h3.bounds k (List.mem_of_getElem? hk)).1
    | succ i => exact ih h3 (Nat.lt_of_succ_lt_succ hij) hl hk

/-- The lexemes of a source stand in order. -/
theorem ordered_lexemesOf (source : String) : Ordered source.utf8ByteSize 0 (lexemesOf source) := start_ordered source

/-- Of two lexemes of a source the first ends before the second starts. -/
theorem stop_le_start {source : String} {i j : Nat} (hij : i < j) {l k : Lexeme} (hl : (lexemesOf source)[i]? = some l)
    (hk : (lexemesOf source)[j]? = some k) : l.span.stop ≤ k.span.start :=
  (ordered_lexemesOf source).stop_le hij hl hk

/-- A lexeme is not empty and lies within its source. -/
theorem lexeme_bounds {source : String} {i : Nat} {l : Lexeme} (hl : (lexemesOf source)[i]? = some l) :
    l.span.start < l.span.stop ∧ l.span.stop ≤ source.utf8ByteSize :=
  ((ordered_lexemesOf source).bounds l (List.mem_of_getElem? hl)).2

/-- Two lexemes of a source are one, or the one in front ends before the other starts. -/
theorem lexeme_order {source : String} {i j : Nat} {l k : Lexeme} (hl : (lexemesOf source)[i]? = some l)
    (hk : (lexemesOf source)[j]? = some k) :
    i < j ∧ l.span.stop ≤ k.span.start ∨ i = j ∧ l = k ∨ j < i ∧ k.span.stop ≤ l.span.start := by
  rcases Nat.lt_trichotomy i j with hij | rfl | hji
  · exact .inl ⟨hij, stop_le_start hij hl hk⟩
  · exact .inr (.inl ⟨rfl, Option.some.inj (hl.symm.trans hk)⟩)
  · exact .inr (.inr ⟨hji, stop_le_start hji hk hl⟩)

/-- Lexemes in different places start at different places. -/
theorem start_inj {source : String} {i j : Nat} {l k : Lexeme} (hl : (lexemesOf source)[i]? = some l)
    (hk : (lexemesOf source)[j]? = some k) : l.span.start = k.span.start ↔ i = j := by
  have hlb := lexeme_bounds hl
  have hkb := lexeme_bounds hk
  rcases lexeme_order hl hk with ⟨hij, hle⟩ | ⟨rfl, rfl⟩ | ⟨hji, hle⟩ <;> omega

/-! ## Comparing the readings -/

/-- The readings of two sources are compared lexeme by lexeme to the end. -/
def sideBySide (s t : String) : Pairing :=
  .entire True s.utf8ByteSize t.utf8ByteSize
    (fun a b => ∃ (i : Nat) (l k : Lexeme), (lexemesOf s)[i]? = some l ∧ (lexemesOf t)[i]? = some k ∧ l.span = a ∧ k.span = b)
    (fun ws vs => Token.AllTrivia ws ∧ Token.AllTrivia vs) ⟨.nil, .nil⟩
    (by
      rintro a b a' b' ⟨i, l, k, hl, hk, rfl, rfl⟩ ⟨j, l', k', hl', hk', rfl, rfl⟩
      rw [start_inj hl hl', start_inj hk hk'])
    (by
      rintro a b ⟨i, l, k, hl, hk, rfl, rfl⟩
      have hlb := lexeme_bounds hl
      have hkb := lexeme_bounds hk
      exact ⟨by omega, by omega⟩)

/-- Rows with the same tokens but for trivia. -/
def SameTokens (ts us : List Tree) : Prop := (Tree.leavesOf ts).filter (!·.isTrivia) = (Tree.leavesOf us).filter (!·.isTrivia)

/-- Trivia are no such tokens. -/
theorem filter_trivia {ws : List Token} (h : Token.AllTrivia ws) : (Tree.leavesOf (leavesFor ws)).filter (!·.isTrivia) = [] := by
  rw [leavesFor, Tree.leavesOf_map_leaf, List.filter_eq_nil_iff]
  exact fun w hw => by simp [h w hw]

/-- Nor is a node that is empty. -/
theorem filter_trailing {ws : List Token} (h : Token.AllTrivia ws) :
    (Tree.leavesOf (leavesFor ws ++ [.node .error []])).filter (!·.isTrivia) = [] := by
  rw [Tree.leavesOf_append, List.filter_append, filter_trivia h]
  rfl

/-- A node has the tokens of its inside. -/
theorem leavesOf_node (kind : NodeKind) (ts : List Tree) : Tree.leavesOf [.node kind ts] = Tree.leavesOf ts := by
  simp [Tree.leavesOf]

/-- Nodes with the same inside are the same in their bare form. -/
theorem bareOf_node_congr {kind : NodeKind} {ts us : List Tree} (h : Tree.inside kind ts = Tree.inside kind us) :
    Tree.bareOf [.node kind ts] = Tree.bareOf [.node kind us] := by
  rw [Tree.bareOf_node, Tree.bareOf_node, h]

/-- Trees are compared without trivia. What is in a node for what could not be used is compared token by token. -/
def bareRows (s t : String) : Rows (sideBySide s t) where
  rows :=
    { rel := fun ts us => Tree.bareOf ts = Tree.bareOf us
      nil := rfl
      append := fun h h' => by rw [Tree.bareOf_append, Tree.bareOf_append, h, h']
      leaf := fun _ => rfl
      lead := fun {ws vs} (h : Token.AllTrivia ws ∧ Token.AllTrivia vs) =>
        (Tree.bareOf_trivia h.1).trans (Tree.bareOf_trivia h.2).symm }
  spoiled :=
    { rel := SameTokens
      nil := rfl
      append := fun h h' => by
        unfold SameTokens at *
        rw [Tree.leavesOf_append, Tree.leavesOf_append, List.filter_append, List.filter_append, h, h']
      leaf := fun _ => rfl
      lead := fun {ws vs} (h : Token.AllTrivia ws ∧ Token.AllTrivia vs) => (filter_trivia h.1).trans (filter_trivia h.2).symm }
  node he hm h := bareOf_node_congr (by rw [Tree.inside_eq he hm, Tree.inside_eq he hm]; exact h)
  mark _ := rfl
  error h := bareOf_node_congr (congrArg leavesFor h)
  spoiled_node h := by
    change SameTokens _ _
    unfold SameTokens
    rw [leavesOf_node, leavesOf_node]
    exact h
  spoiled_left := fun _ {w ws} (h : Token.AllTrivia (w :: ws) ∧ Token.AllTrivia []) => filter_trailing h.1
  spoiled_right := fun _ {v vs} (h : Token.AllTrivia [] ∧ Token.AllTrivia (v :: vs)) => (filter_trailing h.2).symm

/-- Rows of lexemes correspond if those in the same place do. -/
theorem Grammar.Pairing.paired_of_seen {K : Pairing} {after : Bool} {ls ks : List Lexeme} (hlen : ls.length = ks.length)
    (h : ∀ (i : Nat) (l k : Lexeme), ls[i]? = some l → ks[i]? = some k → K.Pair l k ∧
      ((i = 0 ∧ after = true ∨ (Pairing.before ls i).any (fun m => m.kind = .colon) = true) ∨ l.kind = .colon ∨ l.kind = .literalText →
        l.touches = k.touches)) : K.Paired after ls ks := by
  induction ls generalizing ks after with
  | nil =>
    obtain rfl := List.length_eq_zero_iff.mp hlen.symm
    exact .nil after
  | cons l ls ih =>
    obtain ⟨k, ks, rfl⟩ := List.exists_cons_of_length_eq_add_one hlen.symm
    obtain ⟨hpair, htouch⟩ := h 0 l k rfl rfl
    refine .cons hpair (fun hl => htouch (hl.imp (fun ha => .inl ⟨rfl, ha⟩) id)) (ih (Nat.succ.inj hlen) fun i l' k' hl' hk' => ?_)
    obtain ⟨hpair', htouch'⟩ := h (i + 1) l' k' hl' hk'
    refine ⟨hpair', fun hl => htouch' (hl.imp (fun hb => .inr ?_) id)⟩
    rcases hb with ⟨rfl, hcolon⟩ | hb
    · simpa [Pairing.before] using hcolon
    · cases i with
      | zero => cases hb
      | succ i => exact hb

namespace Respaced

variable {s t : String}

/-- There are as many lexemes in respaced sources, and they have the same tokens. -/
theorem tokens_eq (h : Respaced s t) : (lexemesOf s).map (·.token) = (lexemesOf t).map (·.token) := by
  have hs := Lexeme.tokens_of_split 0 [] (Token.ofSource s)
  have ht := Lexeme.tokens_of_split 0 [] (Token.ofSource t)
  exact hs.trans (h.tokens.trans ht.symm)

/-- Lexemes in the same place have the same token. -/
theorem token_eq (h : Respaced s t) {i : Nat} {l k : Lexeme} (hl : (lexemesOf s)[i]? = some l) (hk : (lexemesOf t)[i]? = some k) :
    l.token = k.token := by
  have hget : ((lexemesOf s).map (·.token))[i]? = ((lexemesOf t).map (·.token))[i]? := by rw [h.tokens_eq]
  simpa [hl, hk] using hget

/-- Where trivia matter, a lexeme touches the one before it in both sources or in none. -/
theorem touches_eq (h : Respaced s t) {i : Nat} {l k : Lexeme} (hl : (lexemesOf s)[i]? = some l) (hk : (lexemesOf t)[i]? = some k)
    (hmatter : (Pairing.before (lexemesOf s) i).any (fun m => m.kind = .colon) = true ∨ l.kind = .colon ∨ l.kind = .literalText) :
    l.touches = k.touches := by
  have hlead : (triviaBefore s i = [] ↔ triviaBefore t i = []) → l.touches = k.touches := by
    intro hiff
    rw [triviaBefore, triviaBefore, hl, hk] at hiff
    rw [Bool.eq_iff_iff, Lexeme.touches, Lexeme.touches, List.isEmpty_iff, List.isEmpty_iff]
    exact hiff
  rcases hmatter with hbefore | hcolon | htext
  · cases i with
    | zero => cases hbefore
    | succ i =>
      change (lexemesOf s)[i]?.any _ = true at hbefore
      cases hm : (lexemesOf s)[i]? with
      | none => simp [hm] at hbefore
      | some m => exact hlead (h.colons i m hm (by simpa [hm] using hbefore)).2
  · exact hlead (h.colons i l hl hcolon).1
  · have htext' : k.kind = .literalText := by
      rw [Lexeme.kind, ← h.token_eq hl hk]
      exact htext
    rw [(start_aligned s).touches l (List.mem_of_getElem? hl) htext, (start_aligned t).touches k (List.mem_of_getElem? hk) htext']

/-- The lexemes of respaced sources correspond. -/
theorem paired (h : Respaced s t) : (sideBySide s t).Paired false (lexemesOf s) (lexemesOf t) := by
  refine Pairing.paired_of_seen ?_ fun i l k hl hk => ⟨⟨h.token_eq hl hk, ⟨?_, ?_⟩, i, l, k, hl, hk, rfl, rfl⟩, fun hm => ?_⟩
  · simpa using congrArg List.length h.tokens_eq
  · exact ((Lexeme.allTrivia_split 0 [] (Token.ofSource s) .nil).1 l (List.mem_of_getElem? hl)).1
  · exact ((Lexeme.allTrivia_split 0 [] (Token.ofSource t) .nil).1 k (List.mem_of_getElem? hk)).1
  · exact h.touches_eq hl hk (hm.imp (fun hb => hb.resolve_left nofun) id)

/-- The readings of respaced sources start at corresponding places. -/
theorem start (h : Respaced s t) : (bareRows s t).Twin False (Cursor.start s).toReading (Cursor.start t).toReading where
  ahead := ⟨lexemesOf s, lexemesOf t, (List.append_nil _).symm, (List.append_nil _).symm, h.paired, .inl trivial⟩
  parts := rfl
  modulePrefix := rfl
  alone := .inl trivial
  followed _ :=
    { tail := ⟨(Lexeme.allTrivia_split 0 [] (Token.ofSource s) .nil).2, (Lexeme.allTrivia_split 0 [] (Token.ofSource t) .nil).2⟩
      limit₁ := rfl
      limit₂ := rfl
      reports := fun _ => .nil
      lastReport := fun _ => .none
      reached := False.elim }

/-- They come to corresponding ends. -/
theorem done (h : Respaced s t) : (bareRows s t).Twin False (Cursor.done s).toReading (Cursor.done t).toReading :=
  ((wholeModule_mirrors (T := bareRows s t) trivial).agree (.start s) (.start t) h.start trivial (defects_done s)).2

/-- The reports of respaced sources correspond. -/
theorem reports (h : Respaced s t) :
    List.Forall₂ (sideBySide s t).Reported (Parsed.ofSource s).reports (Parsed.ofSource t).reports :=
  (h.done.followed trivial).reports trivial

/-- Their modules are the same up to the places of functions. -/
theorem module (h : Respaced s t) : (Parsed.ofSource s).module.withoutSpans = (Parsed.ofSource t).module.withoutSpans := by
  obtain ⟨ts, hts, hs⟩ := Parsed.root_ofSource s
  obtain ⟨us, hus, ht⟩ := Parsed.root_ofSource t
  have hbare : Tree.bareOf (Cursor.done s).parts = Tree.bareOf (Cursor.done t).parts := h.done.parts
  rw [hts, hus, Tree.bareOf_node, Tree.bareOf_node, Tree.bareOf_nil] at hbare
  obtain ⟨-, hin⟩ := Tree.node.inj (List.singleton_inj.mp hbare)
  unfold Parsed.module Module.ofTree
  rw [hs, ht]
  exact Module.ofNode_similar (Tree.bareOf_eq_of_inside (by decide) hin)

end Respaced

/-! ## Places of reports -/

/-- Ranges that start and end with corresponding lexemes are at the same tokens. -/
theorem SameRange.of_stretch {s t : String} {a b : Span} (h : (sideBySide s t).Stretch a b) : SameRange s t a b := by
  obtain ⟨⟨_, _, ⟨i, l, k, hl, hk, rfl, rfl⟩, hstart, hstart'⟩, _, _, ⟨j, m, n, hm, hn, rfl, rfl⟩, hstop, hstop'⟩ := h
  exact ⟨.inl ⟨i, l, k, hl, hk, hstart, hstart'⟩, .inl ⟨j, m, n, hm, hn, hstop, hstop'⟩⟩

/-- So are the ranges of corresponding reports. -/
theorem SameRange.of_placed {s t : String} {kind : DiagnosticKind} {a b : Span} (h : (sideBySide s t).Placed kind a b) :
    SameRange s t a b := by
  cases h with
  | lexeme _ h => exact .of_stretch (Pairing.stretch_of_same h)
  | stretch _ h => exact .of_stretch h
  | unclosed _ h =>
    obtain ⟨i, l, k, hl, hk, rfl, rfl⟩ := h
    exact ⟨.inl ⟨i, l, k, hl, hk, rfl, rfl⟩, .inr ⟨rfl, rfl⟩⟩
  | atEnd => exact ⟨.inr ⟨rfl, rfl⟩, .inr ⟨rfl, rfl⟩⟩

/-- Corresponding reports say the same of the same tokens. -/
theorem SameReport.of_reported {s t : String} {r q : Diagnostic} (h : (sideBySide s t).Reported r q) : SameReport s t r q where
  kind := h.kind
  message := by rw [Diagnostic.message, Diagnostic.message, h.kind, h.detail]
  span := .of_placed h.span
  related := h.related.imp fun _ _ hab => ⟨hab.1, .of_stretch hab.2⟩

end QueryStubs
