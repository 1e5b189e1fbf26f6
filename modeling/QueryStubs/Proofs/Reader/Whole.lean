import QueryStubs.Grammar.Module
import QueryStubs.Proofs.Reader.Declarations

/-!
# The whole module is read safely

Which declaration comes next depends on three lexemes at most (`declAhead`), and the words it was recognised by are there when it is
read (`names_of_declAhead`). A declaration that is not complete is skipped up to a semicolon or a name, so every declaration ends
aligned, and the reader of a module as a whole needs fewer looks at a stretch than its patience allows.
-/

namespace QueryStubs.Grammar

open QueryStubs

/-! ## Which declaration comes next -/

/-- The spelling of a lexeme ahead if it is a name. -/
def wordIn (i : Nat) (ls : List Lexeme) : Option String := (ls[i]?.filter (·.kind = .name)).map (·.token.text)

/-- The import that a second word makes. -/
def importKind : Option String → NodeKind
  | some "schema" => .schemaImport
  | some "module" => .moduleImport
  | _ => .error

/-- The declaration of a default that a third word makes. -/
def defaultKind : Option String → NodeKind
  | some "element" => .defaultNamespaceDecl
  | some "function" => .defaultNamespaceDecl
  | some "collation" => .defaultCollationDecl
  | some "order" => .emptyOrderDecl
  | _ => .error

/-- The declaration that a second and a third word make. -/
def declareKind : Option String → Option String → NodeKind
  | some "namespace", _ => .namespaceDecl
  | some "boundary-space", _ => .boundarySpaceDecl
  | some "default", third => defaultKind third
  | some "base-uri", _ => .baseUriDecl
  | some "construction", _ => .constructionDecl
  | some "ordering", _ => .orderingModeDecl
  | some "copy-namespaces", _ => .copyNamespacesDecl
  | some "variable", _ => .varDecl
  | some "function", _ => .functionDecl
  | some "option", _ => .optionDecl
  | _, _ => .error

/-- The kind of the declaration that lexemes start, if they start one. -/
def declAhead (ls : List Lexeme) : Option NodeKind :=
  if wordIn 0 ls = some "import" then some (importKind (wordIn 1 ls))
  else if wordIn 0 ls = some "declare" then some (declareKind (wordIn 1 ls) (wordIn 2 ls))
  else none

/-- How many words a declaration of a kind is recognised by. -/
def leadingWords : NodeKind → Nat
  | .defaultNamespaceDecl | .defaultCollationDecl | .emptyOrderDecl => 3
  | .error => 1
  | _ => 2

/-- A word ahead is what stands there. -/
theorem wordAt_iff {o : Outlook} {i : Nat} {word : String} : o.WordAt i word ↔ wordIn i o.ahead = some word := by
  unfold Outlook.WordAt wordIn
  cases o.ahead[i]? with
  | none => simp
  | some l =>
    by_cases hk : l.kind = .name
    · simp [Lexeme.isWord, Token.isWord, Lexeme.kind] at hk ⊢
      simp [hk]
    · simp [Lexeme.isWord, Token.isWord, Lexeme.kind] at hk ⊢
      simp [hk]

/-- What is spelled as a word is a name. -/
theorem kindAt_of_wordIn {o : Outlook} {i : Nat} (h : (wordIn i o.ahead).isSome = true) : o.KindAt i .name := by
  obtain ⟨word, hw⟩ := Option.isSome_iff_exists.mp h
  exact (wordAt_iff.mpr hw).kindAt

/-- Four looks decide which declaration comes next. -/
theorem upcomingDecl_looks : Looks 4 upcomingDecl fun a o => a = declAhead o.ahead := by
  refine Looks.bind 1 3 (seesWordAt_looks 0 "import") fun _ => Looks.ite (fun h0 => ?_) fun h0 => ?_
  · refine Looks.bind 1 2 (wordAt?_looks 1) fun second => ?_
    refine Looks.of_eq (y := pure (some (importKind second))) (by split <;> simp_all [importKind]) ?_
    refine Looks.pure 2 _ fun o h1 hw => ?_
    rw [declAhead, if_pos (wordAt_iff.mp (hw.mp h0)), h1]
    rfl
  refine Looks.bind 1 2 (seesWordAt_looks 0 "declare") fun _ => Looks.ite (fun h1 => ?_) fun h1 => ?_
  · refine Looks.bind 1 1 (wordAt?_looks 1) fun second => ?_
    by_cases hs : second = some "default"
    · subst hs
      refine Looks.bind 1 0 (wordAt?_looks 2) fun third => ?_
      refine Looks.of_eq (y := pure (some (defaultKind third))) (by split <;> simp_all [defaultKind]) ?_
      refine Looks.pure 0 _ fun o h3 h2 hd hi => ?_
      rw [declAhead, if_neg (fun h => by simp [hi.mpr (wordAt_iff.mpr h)] at h0), if_pos (wordAt_iff.mp (hd.mp h1)),
        show wordIn 1 o.ahead = _ from h2.symm, h3]
      rfl
    · refine Looks.of_eq (y := pure (some (declareKind second none))) (by split <;> simp_all [declareKind]) ?_
      refine Looks.pure 1 _ fun o h2 hd hi => ?_
      rw [declAhead, if_neg (fun h => by simp [hi.mpr (wordAt_iff.mpr h)] at h0), if_pos (wordAt_iff.mp (hd.mp h1)),
        show wordIn 1 o.ahead = _ from h2.symm]
      unfold declareKind
      split <;> simp_all
  · refine Looks.pure 2 _ fun o hd hi => ?_
    rw [declAhead, if_neg (fun h => by simp [hi.mpr (wordAt_iff.mpr h)] at h0),
      if_neg (fun h => by simp [hd.mpr (wordAt_iff.mpr h)] at h1)]

/-- An import is recognised by the words that are there. -/
theorem leadingWords_importKind (second : Option String) :
    leadingWords (importKind second) ≤ 2 ∧ (1 < leadingWords (importKind second) → second.isSome = true) := by
  unfold importKind
  split <;> simp [leadingWords]

/-- So is every other declaration. -/
theorem leadingWords_declareKind (second third : Option String) :
    leadingWords (declareKind second third) ≤ 3 ∧ (1 < leadingWords (declareKind second third) → second.isSome = true) ∧
      (2 < leadingWords (declareKind second third) → third.isSome = true) := by
  unfold declareKind
  split
  case h_3 third =>
    unfold defaultKind
    split <;> simp [leadingWords]
  all_goals simp [leadingWords]

/-- The words that a declaration was recognised by come next. -/
theorem names_of_declAhead {o : Outlook} {kind : NodeKind} (h : declAhead o.ahead = some kind) :
    ∀ i < leadingWords kind, o.KindAt i .name := by
  unfold declAhead at h
  split at h
  · next h0 =>
    obtain rfl := Option.some.inj h
    obtain ⟨hle, h1⟩ := leadingWords_importKind (wordIn 1 o.ahead)
    intro i hi
    match i with
    | 0 => exact kindAt_of_wordIn (by rw [h0]; rfl)
    | 1 => exact kindAt_of_wordIn (h1 hi)
    | i + 2 => omega
  split at h
  · next h0 =>
    obtain rfl := Option.some.inj h
    obtain ⟨hle, h1, h2⟩ := leadingWords_declareKind (wordIn 1 o.ahead) (wordIn 2 o.ahead)
    intro i hi
    match i with
    | 0 => exact kindAt_of_wordIn (by rw [h0]; rfl)
    | 1 => exact kindAt_of_wordIn (h1 hi)
    | 2 => exact kindAt_of_wordIn (h2 hi)
    | i + 3 => omega
  · cases h

/-- Every declaration is recognised by a word at least. -/
theorem leadingWords_pos (kind : NodeKind) : 0 < leadingWords kind := by
  unfold leadingWords
  split <;> decide

/-- Skipping stops only where a semicolon or a name comes next. -/
theorem atRecovery_looks :
    Looks 5 atRecovery fun b o => b = true → ∃ kind, o.KindAt 0 kind ∧ kind.isPlain = true := by
  refine Looks.bind 1 4 (sees_looks .semicolon) fun _ => Looks.ite (fun hs => ?_) fun _ => ?_
  · exact Looks.pure 4 _ fun o h _ => ⟨_, h.mp hs, rfl⟩
  · refine Looks.bind 4 0 upcomingDecl_looks fun a => Looks.pure 0 _ fun o h _ hs => ?_
    obtain ⟨kind, rfl⟩ := Option.isSome_iff_exists.mp hs
    exact ⟨.name, names_of_declAhead h.symm 0 (leadingWords_pos kind), rfl⟩

/-! ## One declaration -/

/-- Skipping ends outside every literal. -/
theorem skipToRecovery_safe : Safe 15 Outlook.Aligned (skipUntil atRecovery) fun _ => Outlook.Aligned := by
  refine (skipUntil_safe (n := 5) (by decide) atRecovery_looks).imp (Nat.le_refl 15) (fun _ h => .outside h) fun _ o h => ?_
  rcases h.2 with hn | ⟨kind, hk, hp⟩
  · exact Outlook.aligned_of_nil hn
  · exact h.1.aligned hk hp

/-- Whatever a declaration lacks, it ends aligned, with its semicolon or before the next declaration. -/
theorem declaration_safe {n w : Nat} {r : Rule Bool} (kind : NodeKind) (h : Declares n w r) :
    Declares (n + 17) w (declaration kind r) := by
  intro k
  have hskip : Safe 15 (fun o => o.Aligned ∧ o.ahead.length < k) (skipUntil atRecovery) fun _ o => o.Aligned ∧ o.ahead.length < k :=
    skipToRecovery_safe.short k
  have haccept : Safe 1 (fun o => o.Aligned ∧ o.ahead.length < k) (accept .semicolon) fun _ o => o.Aligned ∧ o.ahead.length < k :=
    (accept_plain .semicolon rfl).short k
  refine node_safe kind (Safe.bind n 17 (h k) fun ok => Safe.ite (fun _ => ?_) fun _ => ?_) fun o h =>
    ⟨h.1.placed, o.length_placed.trans h.2⟩
  · refine Safe.test 1 16 (sees_looks .semicolon).safe ((haccept.of_imp fun _ h => h.1).mono (by decide)) ?_
    exact Safe.bind 0 16 (report_safe _ _) fun _ => (Safe.bind 15 1 hskip fun _ => haccept).of_imp fun _ h => h.1
  · exact (Safe.bind 15 1 hskip fun _ => haccept).mono (by decide)

/-- The clause for an encoding can be read wherever no comment or literal is cut apart. -/
theorem encodingClause_safe : Safe 5 Outlook.Aligned encodingClause fun _ => Outlook.Aligned := by
  refine Safe.test 1 4 (seesWordAt_looks 0 "encoding").safe ?_ (Safe.pure 4 _ fun _ h => h.1)
  refine Safe.bind 0 4 (takeKeyword_plain.of_imp fun _ h => ⟨h.1, h.2.kindAt⟩) fun _ => stringLiteral_safe _

/-- A version declaration has a word in front. -/
theorem versionDecl_safe : Declares 10 1 versionDecl := by
  refine Declares.of_words (w := 1) (by decide) (Safe.test 1 9 (seesWordAt_looks 0 "version").safe ?_ ?_)
  · refine Safe.bind 0 9 (takeKeyword_plain.of_imp fun _ h => ⟨h.1, h.2.kindAt⟩) fun _ => ?_
    exact inOrder_cons_safe (stringLiteral_safe _) (inOrder_cons_safe encodingClause_safe inOrder_nil_safe)
  · exact (encodingClause_safe.of_imp fun _ h => h.1).mono (by decide)

/-- To bind the prefix of the module is no move. -/
theorem bindPrefix_safe {P : Outlook → Prop} (name : Option String) :
    Safe 0 P (modify fun c => { c with modulePrefix := name }) fun _ => P :=
  fun c _ hp _ _ => ⟨(Run.refl c).bindPrefix name, .refl 0 c, hp⟩

/-- A module declaration has two words in front. -/
theorem moduleDecl_safe : Declares 8 2 moduleDecl := by
  have hrest : Safe 7 Outlook.Aligned (inOrder [expectNCName "module prefix", expect .equals "`=` after module prefix",
      stringLiteral "module namespace URI"]) fun _ => Outlook.Aligned :=
    inOrder_cons_safe (expectNCName_safe _) (inOrder_cons_safe (expect_plain .equals _ rfl)
      (inOrder_cons_safe (stringLiteral_safe _) inOrder_nil_safe))
  refine .of_words (by decide) (Safe.test 1 7 (sees_looks .name).safe ?_ (hrest.of_imp fun _ h => h.1))
  refine Safe.bind 0 7 nextText_looks.safe fun name => Safe.bind 0 7 (bindPrefix_safe (some name)) fun _ => ?_
  exact hrest.of_imp fun _ h => h.1.1

/-- To ask whether only trivia are left is no look. -/
theorem onlyTriviaLeft_looks : Looks 0 onlyTriviaLeft fun _ _ => True := by
  refine .bind 0 0 get_looks fun c => ?_
  split
  · exact .bind 0 0 lookPast_looks fun _ => .pure 0 true fun _ _ _ => trivial
  · exact .pure 0 false fun _ _ => trivial

/-- A declaration of no known kind has a word in front. -/
theorem unknownDecl_safe : Declares 1 1 unknownDecl := by
  intro k
  refine Safe.bind 0 1 nextText_looks.safe fun keyword => ?_
  refine Safe.bind 0 1 ((takeKeywords_safe (w := 1) (by decide) k).of_imp fun _ h => h.1) fun _ => ?_
  refine Safe.bind 1 0 (wordAt?_looks 0).safe fun name => ?_
  cases name with
  | none =>
    exact Safe.bind 0 0 (report_safe _ _) fun _ => Safe.pure 0 _ fun _ h => h.1
  | some name =>
    refine Safe.bind 0 0 (report_safe _ _) fun _ => Safe.bind 0 0 (Q := fun _ o => o.Aligned ∧ o.ahead.length < k) ?_ fun _ => ?_
    · refine ((take_plain .name rfl).short k).of_imp fun o h => ⟨⟨h.1.1, kindAt_of_wordIn ?_⟩, h.1.2⟩
      rw [wordIn, ← h.2]
      rfl
    · refine Safe.bind 0 0 onlyTriviaLeft_looks.safe fun _ => Safe.ite (fun _ => ?_) fun _ => Safe.pure 0 _ fun _ h => h.1
      refine Safe.bind 0 0 (Q := fun _ o => o.Aligned ∧ o.ahead.length < k) ?_ fun _ => Safe.pure 0 _ fun _ h => h
      refine node_safe .error (Safe.pure 0 () fun o h => h) fun o h => ⟨h.1.1.placed, ?_⟩
      exact o.length_placed.symm ▸ h.1.2

/-- Every declaration is safe where the words come next that it is recognised by. -/
theorem declBody_safe (kind : NodeKind) : Declares 49 (leadingWords kind) (declBody kind) := by
  unfold declBody
  split
  · exact namespaceDecl_safe.mono (by decide) (by decide)
  · exact (wordSetter_safe (by decide) _).mono (by decide) (by decide)
  · exact defaultNamespaceDecl_safe.mono (by decide) (by decide)
  · exact (literalSetter_safe (by decide) _).mono (by decide) (by decide)
  · exact emptyOrderDecl_safe.mono (by decide) (by decide)
  · exact (literalSetter_safe (by decide) _).mono (by decide) (by decide)
  · exact (wordSetter_safe (by decide) _).mono (by decide) (by decide)
  · exact (wordSetter_safe (by decide) _).mono (by decide) (by decide)
  · exact copyNamespacesDecl_safe.mono (by decide) (by decide)
  · exact schemaImport_safe.mono (by decide) (by decide)
  · exact moduleImport_safe.mono (by decide) (by decide)
  · exact varDecl_safe.mono (by decide) (by decide)
  · exact functionDecl_safe.mono (by decide) (by decide)
  · exact optionDecl_safe.mono (by decide) (by decide)
  · exact unknownDecl_safe.mono (by decide) (leadingWords_pos _)

/-- A misplaced setter may be reported, as the place of the first other declaration runs forward. -/
theorem checkOrder_safe {P : Outlook → Prop} (kind : NodeKind) {span : Span} {first : Option Span} (hs : span.Forward)
    (hf : ∀ s ∈ first, s.Forward) : Safe 0 P (checkOrder kind span first) fun _ => P := by
  cases first with
  | none => exact Safe.pure 0 _ fun _ h => h
  | some place => exact Safe.ite (fun _ => reportAt_safe _ _ hs (by simpa using hf place rfl)) fun _ => Safe.pure 0 _ fun _ h => h

/-- The check of the order reports a setter behind a declaration that it has to come before, and does nothing else. -/
theorem checkOrder_run (kind : NodeKind) (span : Span) (first : Option Span) (c : Cursor) :
    ((checkOrder kind span first c).2 = c ∧ (first.isSome = true → kind.isSetter = false)) ∨
      ∃ place, first = some place ∧ kind.isSetter = true ∧ (checkOrder kind span first c).2 =
        c.addReport span.start ⟨.misplacedDeclaration, span, none, [⟨"first function, variable or option declaration", place⟩]⟩ := by
  cases first with
  | none => exact .inl ⟨rfl, nofun⟩
  | some place =>
    by_cases hk : kind.isSetter = true
    · refine .inr ⟨place, rfl, hk, ?_⟩
      rw [checkOrder, if_pos hk]
      rfl
    · refine .inl ⟨?_, fun _ => Bool.not_eq_true _ ▸ hk⟩
      rw [checkOrder, if_neg hk]
      rfl

/-! ## The parts of a module -/

/-- After a round of the prolog either another follows, with fewer lexemes left, or the prolog is at an end. -/
theorem prologStep_safe (first : Option Span) (k : Nat) :
    Safe 70 (fun o => (o.Aligned ∧ ∀ s ∈ first, s.Forward) ∧ o.ahead.length = k) (prologStep first) fun r o =>
      if r.1 = true then (o.Aligned ∧ ∀ s ∈ r.2, s.Forward) ∧ o.ahead.length < k else o.Aligned := by
  refine Safe.bind 4 66 upcomingDecl_looks.safe fun kind => ?_
  cases kind with
  | none => exact Safe.pure 66 _ fun _ h => h.1.1.1
  | some kind =>
    refine Safe.bind 0 66 nextSpan_safe fun span => ?_
    refine Safe.of_imp (P := fun o => ((∀ s ∈ first, s.Forward) ∧ span.Forward) ∧
      (o.Names (leadingWords kind) ∧ o.ahead.length = k) ∧ ∃ l ls, o.ahead = l :: ls ∧ l.span = span) ?_ ?_
    · refine Safe.of_fact fun hf => Safe.bind 66 0 ((declaration_safe kind (declBody_safe kind) k).head span) fun _ => ?_
      refine Safe.bind 0 0 get_looks.safe fun c => ?_
      refine Safe.of_imp (P := fun o => span.start ≤ c.reached ∧ o.Aligned ∧ o.ahead.length < k) ?_ ?_
      · refine Safe.of_fact fun hle => Safe.bind 0 0 (demand_safe _ fun _ _ => decide_eq_true hle) fun _ => ?_
        refine Safe.bind 0 0 (checkOrder_safe kind hle hf.1) fun _ => Safe.pure 0 _ fun o h => ?_
        rw [if_pos rfl]
        refine ⟨⟨h.1, fun s hs => ?_⟩, h.2⟩
        split at hs
        · cases first with
          | none => exact (Option.some.inj hs) ▸ hle
          | some place => exact (Option.some.inj hs) ▸ hf.1 place rfl
        · exact hf.1 s hs
      · rintro o ⟨⟨h, hle⟩, rfl⟩
        exact ⟨Nat.le_trans hf.2 hle, h⟩
    · rintro o ⟨⟨⟨⟨ha, hf⟩, hk⟩, hd⟩, hs, hl⟩
      have hn := names_of_declAhead hd.symm
      obtain ⟨l, ls, hc, -⟩ := (hn 0 (leadingWords_pos kind)).cons
      exact ⟨⟨hf, hs⟩, ⟨⟨ha, hn⟩, hk⟩, l, ls, hc, (hl l ls hc).symm⟩

/-- The declarations of a prolog can be read wherever no comment or literal is cut apart. -/
theorem prologDecls_safe : Safe 140 Outlook.Aligned prologDecls fun _ => Outlook.Aligned :=
  (Safe.bind 140 0 (repeatRule_safe (n := 70) (I := fun (first : Option Span) o => o.Aligned ∧ ∀ s ∈ first, s.Forward)
    (Q := fun _ => Outlook.Aligned) (by decide) prologStep_safe none) fun _ => Safe.pure 0 _ fun _ h => h).of_imp
      fun _ h => ⟨h, by simp⟩

/-- Nothing is left after a library module. -/
theorem libraryTail_safe : Safe 1 Outlook.Aligned libraryTail fun _ o => o.ahead = [] := by
  refine Safe.bind 1 0 nextKind_looks.safe fun _ => Safe.test 0 0 atEnd_looks.safe (Safe.pure 0 _ fun _ h => h.2) ?_
  refine Safe.bind 0 0 (reportNext_safe _ _) fun _ => ?_
  have hskip : Safe 0 Outlook.Within (skipUntil (pure false)) fun _ o => o.Within ∧ (o.ahead = [] ∨ False) :=
    skipUntil_safe (n := 0) (Nat.zero_le _) (Looks.pure 0 _ fun _ hb => Bool.noConfusion hb)
  exact hskip.imp (Nat.le_refl 0) (fun _ h => .outside h.1.1) fun _ _ h => h.2.resolve_right id

/-- After a round of a query body either another follows, with fewer lexemes left, or nothing is left. The braces that are open lie behind. -/
theorem queryBodyStep_safe (stack : List Span) (k : Nat) :
    Safe 1 (fun o => (o.Within ∧ o.Past stack) ∧ o.ahead.length = k) (queryBodyStep stack) fun r o =>
      if r.1 = true then (o.Within ∧ o.Past r.2) ∧ o.ahead.length < k else o.ahead = [] ∧ o.Past r.2 := by
  have htake : ∀ spans, Safe 0 (fun o => (((o.Within ∧ o.ahead.length = k) ∧ o.ahead ≠ []) ∧ o.Past spans)) take
      fun _ o => (o.Within ∧ o.Past spans) ∧ o.ahead.length < k := fun spans =>
    ((takeAny_safe k).past spans).imp (Nat.le_refl 0) (fun _ h => h) fun _ _ h => ⟨⟨h.1.1, h.2⟩, h.1.2⟩
  refine Safe.bind 1 0 nextKind_looks.safe fun kind => ?_
  cases kind with
  | none => exact Safe.pure 0 _ fun o h => ⟨by simpa using h.2.symm, h.1.1.2⟩
  | some kind =>
    refine Safe.of_imp (P := fun o => ((o.Within ∧ o.ahead.length = k) ∧ o.ahead ≠ []) ∧ o.Past stack) ?_ fun o h =>
      ⟨⟨⟨h.1.1.1, h.1.2⟩, fun hn => by simp [hn] at h⟩, h.1.1.2⟩
    split
    · next hk => cases hk
    · refine (scanned_safe fun span => Safe.pure 0 _ fun _ h => h).of_imp fun o h => ⟨⟨⟨h.1.1.1, h.2⟩, h.1.1.2⟩, h.1.2⟩
    · cases stack with
      | nil =>
        refine Safe.bind 0 0 (report_safe _ _) fun _ => Safe.bind 0 0 (node_safe .error (htake []) fun o h => ?_)
          fun _ => Safe.pure 0 _ fun _ h => h
        refine ⟨⟨⟨h.1.1.1.placed, o.length_placed.trans h.1.1.2⟩, fun hn => h.1.2 ?_⟩, fun s hs => nomatch hs⟩
        exact List.length_eq_zero_iff.mp (o.length_placed.symm.trans (List.length_eq_zero_iff.mpr hn))
      | cons opening outer =>
        refine Safe.bind 0 0 ((htake outer).of_imp fun o h => ⟨h.1, fun s hs => h.2 s (List.mem_cons_of_mem _ hs)⟩) fun _ =>
          Safe.pure 0 _ fun _ h => h
    · exact Safe.bind 0 0 (htake stack) fun _ => Safe.pure 0 _ fun _ h => h

/-- Nothing is left after a query body either. -/
theorem queryBody_safe : Safe 3 Outlook.Aligned queryBody fun _ o => o.ahead = [] := by
  refine Safe.bind 1 2 nextKind_looks.safe fun _ => Safe.test 0 2 atEnd_looks.safe (Safe.pure 2 _ fun _ h => h.2) ?_
  refine node_safe .queryBody (R := Outlook.Aligned) ?_ fun _ h => h.1.1.placed
  refine (Safe.bind 2 0 (repeatRule_safe (n := 1) (I := fun (stack : List Span) o => o.Within ∧ o.Past stack)
    (Q := fun stack o => o.ahead = [] ∧ o.Past stack) (by decide) queryBodyStep_safe []) fun stack => ?_).of_imp
      fun _ h => ⟨.outside h, fun s hs => nomatch hs⟩
  cases stack with
  | nil => exact Safe.pure 0 _ fun _ h => h.1
  | cons opening outer =>
    refine (reportUnclosed_safe _ _ fun o h => ?_).imp (Nat.le_refl 0) (fun _ h => h) fun _ _ h => h.1
    intro s hs
    rw [List.mem_singleton.mp hs]
    exact h.2 opening (List.mem_cons_self ..)

/-- Three looks decide whether a version declaration comes next. -/
theorem seesVersionDecl_looks :
    Looks 3 seesVersionDecl fun b o => b = true ↔ o.WordAt 0 "xquery" ∧ (o.WordAt 1 "version" ∨ o.WordAt 1 "encoding") := by
  refine Looks.bind 1 2 (seesWordAt_looks 0 "xquery") fun _ => Looks.ite (fun h0 => ?_) fun h0 => ?_
  · refine Looks.bind 1 1 (seesWordAt_looks 1 "version") fun _ => Looks.ite (fun h1 => ?_) fun h1 => ?_
    · exact Looks.pure 1 _ fun o hv hx => ⟨fun _ => ⟨hx.mp h0, .inl (hv.mp h1)⟩, fun _ => rfl⟩
    · refine (seesWordAt_looks 1 "encoding").imp (Nat.le_refl 1) fun b o he hv hx => ?_
      have hn : ¬ o.WordAt 1 "version" := fun h => by simp [hv.mpr h] at h1
      exact ⟨fun hb => ⟨hx.mp h0, .inr (he.mp hb)⟩, fun h => he.mpr (h.2.resolve_left hn)⟩
  · exact Looks.pure 2 _ fun o hx => ⟨fun hb => by simp at hb, fun h => by simp [hx.mpr h.1] at h0⟩

/-- Two looks decide whether a module declaration comes next. -/
theorem seesModuleDecl_looks :
    Looks 2 seesModuleDecl fun b o => b = true ↔ o.WordAt 0 "module" ∧ o.WordAt 1 "namespace" := by
  refine Looks.bind 1 1 (seesWordAt_looks 0 "module") fun _ => Looks.ite (fun h0 => ?_) fun h0 => ?_
  · exact (seesWordAt_looks 1 "namespace").imp (Nat.le_refl 1) fun b o hn hm => ⟨fun hb => ⟨hm.mp h0, hn.mp hb⟩, fun h => hn.mpr h.2⟩
  · exact Looks.pure 1 _ fun o hm => ⟨fun hb => by simp at hb, fun h => by simp [hm.mpr h.1] at h0⟩

/-- The words of a module declaration are names. -/
theorem names_of_module {o : Outlook} (h : o.WordAt 0 "module" ∧ o.WordAt 1 "namespace") : ∀ i < 2, o.KindAt i .name := by
  intro i hi
  match i with
  | 0 => exact h.1.kindAt
  | 1 => exact h.2.kindAt
  | i + 2 => omega

/-- A library module has two words in front and leaves nothing. -/
theorem libraryModule_safe : Safe 166 (Outlook.Names 2) libraryModule fun _ o => o.ahead = [] := by
  refine Safe.bind 25 141 (declaration_safe .moduleDecl moduleDecl_safe).safe fun _ => ?_
  refine Safe.ite (fun _ => ?_) fun _ => ?_
  · exact Safe.bind 140 1 (nodeWithLead_safe .prolog prologDecls_safe) fun _ => libraryTail_safe
  · exact Safe.bind 140 1 (node_safe .prolog prologDecls_safe fun _ h => Outlook.Aligned.placed h) fun _ => libraryTail_safe

/-- A main module leaves nothing. -/
theorem mainModule_safe : Safe 143 Outlook.Aligned mainModule fun _ o => o.ahead = [] :=
  Safe.bind 140 3 (node_safe .prolog prologDecls_safe fun _ h => Outlook.Aligned.placed h) fun _ => queryBody_safe

/-- A module is read to its end, and fewer looks are made at a stretch than there is patience for. -/
theorem wholeModule_safe : Safe fullPatience Outlook.Aligned wholeModule fun _ o => o.ahead = [] ∧ o.tail = [] := by
  have heat : Safe 0 (fun o => o.ahead = []) eatTrivia fun _ o => o.ahead = [] ∧ o.tail = [] :=
    eatTrivia_safe.of_imp fun _ h => Outlook.tail_placed h
  have hrest : Safe 168 Outlook.Aligned
      (do
        if ← seesModuleDecl then libraryModule else mainModule
        eatTrivia) fun _ o => o.ahead = [] ∧ o.tail = [] := by
    refine Safe.bind 2 166 (seesModuleDecl_looks.safe (P := Outlook.Aligned)) fun _ => Safe.ite (fun hb => ?_) fun _ => ?_
    · exact (Safe.bind 166 0 libraryModule_safe fun _ => heat).of_imp fun o h => ⟨h.1, names_of_module (h.2.mp hb)⟩
    · exact (Safe.bind 143 0 mainModule_safe fun _ => heat).imp (by decide) (fun _ h => h.1) fun _ _ h => h
  refine nodeWithLead_safe .root (Safe.mono (n := 198) ?_ (by decide))
  refine Safe.bind 3 195 (seesVersionDecl_looks.safe (P := Outlook.Aligned)) fun _ => Safe.ite (fun hb => ?_) fun _ => ?_
  · refine (Safe.bind 27 168 (declaration_safe .versionDecl versionDecl_safe).safe fun _ => hrest).of_imp fun o h => ?_
    exact ⟨h.1, fun i hi => by rw [Nat.lt_one_iff.mp hi]; exact (h.2.mp hb).1.kindAt⟩
  · exact hrest.imp (by decide) (fun _ h => h.1) fun _ _ h => h

end QueryStubs.Grammar
