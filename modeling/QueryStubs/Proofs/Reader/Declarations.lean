import QueryStubs.Grammar.Function
import QueryStubs.Grammar.Variable
import QueryStubs.Grammar.Setter
import QueryStubs.Proofs.Reader.Types

/-!
# Safe rules for declarations

Functions, variables, options, setters and imports, each without its semicolon. The words that a declaration was recognised by are
names, which is all that has to be known of them here.
-/

namespace QueryStubs.Grammar

open QueryStubs

/-- A rule for a declaration that some words start is safe where they come next, and it takes them. -/
def Declares (n w : Nat) (r : Rule Bool) : Prop :=
  ∀ k, Safe n (fun o => o.Names w ∧ o.ahead.length = k) r fun _ o => o.Aligned ∧ o.ahead.length < k

/-- Taking the words of a declaration takes a lexeme at least. -/
theorem takeKeywords_safe {w : Nat} (hw : 0 < w) (k : Nat) :
    Safe 0 (fun o => o.Names w ∧ o.ahead.length = k) (takeKeywords w)
      fun _ o => o.Aligned ∧ o.ahead.length < k := by
  obtain ⟨w, rfl⟩ := Nat.exists_eq_succ_of_ne_zero (Nat.ne_of_gt hw)
  exact Safe.bind 0 0 (takeKeyword_names w k) fun _ => (takeKeywords_names w).short k

/-- It is safe then. -/
theorem Declares.safe {n w : Nat} {r : Rule Bool} (h : Declares n w r) :
    Safe n (Outlook.Names w) r fun _ => Outlook.Aligned :=
  Safe.of_length fun k => (h k).imp (Nat.le_refl n) (fun _ ho => ho) fun _ _ hq => hq.1

/-- More words may come next, and the bound may be raised. -/
theorem Declares.mono {n m w v : Nat} {r : Rule Bool} (h : Declares n w r) (hn : n ≤ m) (hw : w ≤ v) : Declares m v r :=
  fun k => (h k).imp hn (fun _ ho => ⟨⟨ho.1.1, fun i hi => ho.1.2 i (Nat.lt_of_lt_of_le hi hw)⟩, ho.2⟩) fun _ _ hq => hq

/-- What follows the words of a declaration may be anything that is safe. -/
theorem Declares.of_words {n w : Nat} {r : Rule Bool} (hw : 0 < w)
    (h : Safe n Outlook.Aligned r fun _ => Outlook.Aligned) : Declares n w (takeKeywords w >>= fun _ => r) :=
  fun k => (Safe.bind 0 n (takeKeywords_safe hw k) fun _ => h.short k).mono (Nat.le_of_eq (Nat.zero_add n))

/-! ## Functions -/

/-- To find the prefix of the name that comes next one looks two lexemes ahead. -/
theorem upcomingPrefix_looks : Looks 2 upcomingPrefix fun _ _ => True := by
  refine Looks.bind 1 1 (seesTouching_looks 1 .colon) fun _ => Looks.ite (fun _ => ?_) fun _ => Looks.pure 1 _ fun _ _ => trivial
  refine Looks.bind 1 0 (seesTouching_looks 2 .name) fun _ => Looks.ite (fun _ => ?_) fun _ => Looks.pure 0 _ fun _ _ _ => trivial
  exact Looks.bind 0 0 nextText_looks fun _ => Looks.pure 0 _ fun _ _ _ _ => trivial

/-- Checking the namespace of a function takes nothing. -/
theorem checkNamespace_safe {P : Outlook → Prop} : Safe 3 P checkNamespace fun _ => P := by
  refine Safe.test 1 2 (sees_looks .name).safe ?_ (Safe.pure 2 _ fun _ h => h.1)
  refine Safe.bind 0 2 (Q := fun span o => span.Forward ∧ P o) (nextSpan_safe.imp (Nat.le_refl 0) (fun _ h => h)
    fun _ _ h => ⟨h.2.1, h.1.1⟩) fun span => ?_
  refine Safe.of_fact fun hf => Safe.bind 2 0 upcomingPrefix_looks.safe fun _ => Safe.bind 0 0 get_looks.safe fun _ => ?_
  exact Safe.ite (fun _ => (reportAt_safe _ _ hf (by simp)).of_imp fun _ h => h.1.1) fun _ => Safe.pure 0 _ fun _ h => h.1.1

/-- A parameter starts with a dollar sign. -/
theorem param_safe : Safe 12 (fun o => o.Aligned ∧ o.KindAt 0 .dollar) param fun _ => Outlook.Aligned :=
  node_safe .param (Safe.bind 0 12 (take_plain .dollar rfl) fun _ =>
    andThen_safe (expectQName_safe _) optionalType_safe fun _ h => h) fun _ h => ⟨h.1.placed, h.2.placed⟩

/-- After a round of the parameters either another follows, with fewer lexemes left, or they are at an end. -/
theorem paramStep_safe (a : Bool) (k : Nat) :
    Safe 14 (fun o => o.Aligned ∧ o.ahead.length = k) (paramStep a) fun r o =>
      if r.1 = true then o.Aligned ∧ o.ahead.length < k else o.Aligned := by
  refine Safe.test 1 13 (sees_looks .dollar).safe ?_
    (Safe.bind 0 13 (report_safe _ _) fun _ => Safe.pure 13 _ fun _ h => h.1.1)
  refine Safe.bind 12 1 ((param_safe.short (k + 1)).of_imp fun _ h => ⟨⟨h.1.1, h.2⟩, Nat.lt_succ_of_le (Nat.le_of_eq h.1.2)⟩) fun ok =>
    Safe.ite (fun _ => ?_) fun _ => Safe.pure 1 _ fun _ h => h.1
  refine Safe.bind 1 0 (accept_short .comma rfl k) fun goesOn => Safe.pure 0 _ fun o h => ?_
  split
  · next hb => exact ⟨h.1, h.2 hb⟩
  · exact h.1

/-- The parenthesis that may be reported as unclosed lies behind. -/
theorem closeParams_safe (opening : Span) :
    Safe 1 (fun o => o.Aligned ∧ o.Past [opening]) (closeParams opening) fun _ => Outlook.Aligned := by
  refine Safe.bind 1 0 ((accept_plain .parenClose rfl).past [opening]) fun _ =>
    Safe.ite (fun _ => Safe.pure 0 _ fun _ h => h.1) fun _ => ?_
  refine Safe.test 0 0 atEnd_looks.safe ?_ ?_
  · exact Safe.bind 0 0 (reportUnclosed_safe _ _ fun _ h => h.1.2) fun _ => Safe.pure 0 _ fun _ h => h.1.1
  · exact Safe.bind 0 0 (report_safe _ _) fun _ => Safe.pure 0 _ fun _ h => h.1.1

/-- A list of parameters starts with its parenthesis. -/
theorem paramList_safe : Safe 30 (fun o => o.Aligned ∧ o.KindAt 0 .parenOpen) paramList fun _ => Outlook.Aligned := by
  refine node_safe .paramList (opening_safe .parenOpen rfl fun opening => ?_) fun _ h => ⟨h.1.placed, h.2.placed⟩
  refine Safe.test 1 29 (sees_looks .parenClose).safe (((closeParams_safe opening).of_imp fun _ h => h.1).mono (by decide)) ?_
  have hloop : Safe 28 Outlook.Aligned (repeatRule paramStep true) fun _ => Outlook.Aligned :=
    repeatRule_safe (n := 14) (I := fun _ => Outlook.Aligned) (by decide) paramStep_safe true
  exact (andThen_safe (hloop.past [opening]) (closeParams_safe opening) fun _ h => h.1).of_imp fun _ h => h.1

/-- A body in braces starts with its brace. -/
theorem enclosedBody_safe :
    Safe 2 (fun o => o.Aligned ∧ o.KindAt 0 .braceOpen) enclosedBody fun _ => Outlook.Aligned :=
  node_safe .enclosedBody (balanced_safe rfl rfl _ _) fun _ h => ⟨h.1.placed, h.2.placed⟩

/-- The body of a function can be read wherever no comment or literal is cut apart. -/
theorem functionBody_safe : Safe 3 Outlook.Aligned functionBody fun _ => Outlook.Aligned := by
  refine Safe.test 1 2 (sees_looks .braceOpen).safe enclosedBody_safe ?_
  refine Safe.test 1 1 (seesWordAt_looks 0 "external").safe ?_ ?_
  · refine Safe.bind 0 1 (node_safe .externalBody takeKeyword_plain fun _ h => ⟨h.1.1.placed, h.2.kindAt.placed⟩) fun _ => ?_
    exact Safe.pure 1 _ fun _ h => h
  · exact Safe.bind 0 1 (reportNext_safe _ _) fun _ => Safe.pure 1 _ fun _ h => h.1.1

/-- So can all that follows the words of a function. -/
theorem functionTail_safe : Safe 42 Outlook.Aligned functionTail fun _ => Outlook.Aligned := by
  refine Safe.test 1 41 (sees_looks .parenOpen).safe ?_ (Safe.bind 0 41 (report_safe _ _) fun _ => Safe.pure 41 _ fun _ h => h.1)
  exact andThen_safe paramList_safe (andThen_safe optionalType_safe functionBody_safe fun _ h => h) fun _ h => h

/-- A function has two words in front. -/
theorem functionDecl_safe : Declares 49 2 functionDecl :=
  .of_words (by decide) <| Safe.bind 3 46 checkNamespace_safe fun _ =>
    andThen_safe (expectQName_safe _) functionTail_safe fun _ h => h

/-! ## Variables and options -/

/-- The ranges of the brackets that are open in a value. -/
def OpenBrackets.spans (b : OpenBrackets) : List Span := b.stack.map (·.2)

/-- The brackets that are open behind a lexeme were open before it or are the lexeme. -/
theorem spans_after (b : OpenBrackets) (kind : TokenKind) (span : Span) :
    ∀ s ∈ (b.after kind span).spans, s ∈ span :: b.spans := by
  unfold OpenBrackets.after OpenBrackets.spans
  split
  · exact fun s hs => hs
  split
  · intro s hs
    simp only [List.map_tail] at hs
    exact List.mem_cons_of_mem _ (List.mem_of_mem_tail hs)
  · exact fun s hs => List.mem_cons_of_mem _ hs

/-- After a round of a value either another follows, with fewer lexemes left, or the value is at an end. The brackets that are open lie behind.
-/
theorem valueStep_safe (b : OpenBrackets) (k : Nat) :
    Safe 1 (fun o => (o.Within ∧ o.Past b.spans) ∧ o.ahead.length = k) (valueStep b) fun r o =>
      if r.1 = true then (o.Within ∧ o.Past r.2.spans) ∧ o.ahead.length < k else o.Aligned ∧ o.Past r.2.spans := by
  refine Safe.bind 1 0 nextKind_looks.safe fun kind => ?_
  cases kind with
  | none => exact Safe.pure 0 _ fun o h => ⟨Outlook.aligned_of_nil (by simpa using h.2.symm), h.1.1.2⟩
  | some kind =>
    refine Safe.ite (fun hb => Safe.pure 0 _ fun o h => ⟨h.1.1.1.aligned h.2.symm ?_, h.1.1.2⟩) fun _ => ?_
    · simp only [Bool.and_eq_true, Bool.or_eq_true, decide_eq_true_eq] at hb
      rcases hb.2 with rfl | hb
      · rfl
      · exact isPlain_of_isClosing hb
    · refine (scanned_safe fun span => Safe.pure 0 _ fun o h => ?_).of_imp fun o h => ⟨h.1, fun hn => ?_⟩
      · exact ⟨⟨h.1.1, fun s hs => h.1.2 s (spans_after b kind span s hs)⟩, h.2⟩
      · simp [hn] at h

/-- The brackets that may be reported as unclosed lie behind. -/
theorem closeValue_safe (b : OpenBrackets) :
    Safe 0 (fun o => o.Aligned ∧ o.Past b.spans) (closeValue b) fun _ => Outlook.Aligned := by
  unfold closeValue
  split
  · next kind opening rest hb =>
    refine Safe.bind 0 0 (reportUnclosed_safe _ _ fun o h => ?_) fun _ => Safe.pure 0 _ fun _ h => h.1
    intro s hs
    rw [List.mem_singleton.mp hs]
    exact h.2 opening (by simp [OpenBrackets.spans, hb])
  · exact Safe.ite (fun _ => Safe.bind 0 0 (report_safe _ _) fun _ => Safe.pure 0 _ fun _ h => h.1)
      fun _ => Safe.pure 0 _ fun _ h => h.1

/-- The value of a variable starts with its sign. -/
theorem varValue_safe : Safe 2 (fun o => o.Aligned ∧ o.KindAt 0 .colonEquals) varValue fun _ => Outlook.Aligned := by
  refine node_safe .varValue (Safe.bind 0 2 (take_plain .colonEquals rfl) fun _ => ?_) fun _ h => ⟨h.1.placed, h.2.placed⟩
  refine (Safe.bind 2 0 (repeatRule_safe (n := 1) (I := fun (b : OpenBrackets) o => o.Within ∧ o.Past b.spans)
    (Q := fun b o => o.Aligned ∧ o.Past b.spans) (by decide) valueStep_safe {}) closeValue_safe).of_imp fun o h => ?_
  exact ⟨.outside h, fun s hs => nomatch hs⟩

/-- What follows the name and type of a variable can be read wherever no comment or literal is cut apart. -/
theorem varTail_safe : Safe 5 Outlook.Aligned varTail fun _ => Outlook.Aligned := by
  refine Safe.test 1 4 (sees_looks .colonEquals).safe (varValue_safe.mono (by decide)) ?_
  refine Safe.test 1 3 (seesWordAt_looks 0 "external").safe ?_ ?_
  · refine Safe.bind 0 3 (takeKeyword_plain.of_imp fun _ h => ⟨h.1.1, h.2.kindAt⟩) fun _ => ?_
    exact Safe.test 1 2 (sees_looks .colonEquals).safe varValue_safe (Safe.pure 2 _ fun _ h => h.1)
  · exact Safe.bind 0 3 (reportNext_safe _ _) fun _ => Safe.pure 3 _ fun _ h => h.1.1

/-- So can the name and the type. -/
theorem varName_safe : Safe 17 Outlook.Aligned varName fun _ => Outlook.Aligned :=
  andThen_safe (expectQName_safe _) (andThen_safe optionalType_safe varTail_safe fun _ h => h) fun _ h => h

/-- A variable has two words in front. -/
theorem varDecl_safe : Declares 18 2 varDecl :=
  .of_words (by decide) <| Safe.bind 1 17 (accept_plain .dollar rfl) fun _ =>
    Safe.ite (fun _ => varName_safe) fun _ => Safe.bind 0 17 (report_safe _ _) fun _ => Safe.pure 17 _ fun _ h => h

/-- An option has two words in front. -/
theorem optionDecl_safe : Declares 8 2 optionDecl :=
  .of_words (by decide) <| andThen_safe (expectQName_safe _) (stringLiteral_safe _) fun _ h => h

/-! ## Setters and imports -/

/-- Without rules nothing is read. -/
theorem inOrder_nil_safe {P : Outlook → Prop} : Safe 0 P (inOrder []) fun _ => P :=
  Safe.pure 0 _ fun _ h => h

/-- Rules that keep what holds keep it one after the other. -/
theorem inOrder_cons_safe {n m : Nat} {P : Outlook → Prop} {rule : Rule Bool} {rules : List (Rule Bool)}
    (h : Safe n P rule fun _ => P) (hs : Safe m P (inOrder rules) fun _ => P) :
    Safe (n + m) P (inOrder (rule :: rules)) fun _ => P :=
  andThen_safe h hs fun _ hp => hp

/-- A prefix and its sign can be read wherever no comment or literal is cut apart. -/
theorem prefixBinding_safe : Safe 3 Outlook.Aligned prefixBinding fun _ => Outlook.Aligned :=
  inOrder_cons_safe (expectNCName_safe _) (inOrder_cons_safe (expect_plain .equals _ rfl) inOrder_nil_safe)

/-- A namespace has two words in front. -/
theorem namespaceDecl_safe : Declares 7 2 namespaceDecl :=
  .of_words (by decide) <|
    inOrder_cons_safe prefixBinding_safe (inOrder_cons_safe (stringLiteral_safe _) inOrder_nil_safe)

/-- A setter whose words are followed by one of some words. -/
theorem wordSetter_safe {n : Nat} (hn : 0 < n) (words : List String) :
    Declares words.length n (takeKeywords n >>= fun _ => expectWordOf words) :=
  .of_words hn (expectWordOf_safe words)

/-- A setter whose words are followed by a string literal. -/
theorem literalSetter_safe {n : Nat} (hn : 0 < n) (what : String) :
    Declares 4 n (takeKeywords n >>= fun _ => stringLiteral what) :=
  .of_words hn (stringLiteral_safe what)

/-- A default namespace has three words in front. -/
theorem defaultNamespaceDecl_safe : Declares 5 3 defaultNamespaceDecl :=
  .of_words (by decide) <|
    inOrder_cons_safe (expectWord_safe _) (inOrder_cons_safe (stringLiteral_safe _) inOrder_nil_safe)

/-- The order of empty sequences has three words in front. -/
theorem emptyOrderDecl_safe : Declares 3 3 emptyOrderDecl :=
  .of_words (by decide) <|
    inOrder_cons_safe (expectWord_safe _) (inOrder_cons_safe (expectWordOf_safe ["greatest", "least"]) inOrder_nil_safe)

/-- The setter for copied namespaces has two words in front. -/
theorem copyNamespacesDecl_safe : Declares 5 2 copyNamespacesDecl :=
  .of_words (by decide) <|
    inOrder_cons_safe (expectWordOf_safe ["preserve", "no-preserve"]) (inOrder_cons_safe (expect_plain .comma _ rfl)
      (inOrder_cons_safe (expectWordOf_safe ["inherit", "no-inherit"]) inOrder_nil_safe))

/-- After a round of the locations either another follows, with fewer lexemes left, or they are at an end. -/
theorem locationStep_safe (a : Bool) (k : Nat) :
    Safe 5 (fun o => o.Aligned ∧ o.ahead.length = k) (locationStep a) fun r o =>
      if r.1 = true then o.Aligned ∧ o.ahead.length < k else o.Aligned := by
  refine Safe.bind 1 4 ((accept_short .comma rfl k).of_imp fun _ h => ⟨h.1, Nat.lt_succ_of_le (Nat.le_of_eq h.2)⟩)
    fun taken => Safe.ite (fun ht => ?_) fun _ => Safe.pure 4 _ fun _ h => h.1
  refine Safe.bind 4 0 (((stringLiteral_safe _).short k).of_imp fun o h => ⟨h.1, h.2 ht⟩) fun _ => ?_
  exact Safe.ite (fun _ => Safe.pure 0 _ fun o h => h) fun _ => Safe.pure 0 _ fun _ h => h.1

/-- The locations of an import can be read wherever no comment or literal is cut apart. -/
theorem locationHints_safe : Safe 15 Outlook.Aligned locationHints fun _ => Outlook.Aligned := by
  refine Safe.test 1 14 (seesWordAt_looks 0 "at").safe ?_ (Safe.pure 14 _ fun _ h => h.1)
  refine Safe.bind 0 14 (takeKeyword_plain.of_imp fun _ h => ⟨h.1, h.2.kindAt⟩) fun _ => ?_
  exact andThen_safe (stringLiteral_safe _)
    (repeatRule_safe (n := 5) (I := fun _ => Outlook.Aligned) (by decide) locationStep_safe true) fun _ h => h

/-- So can what a schema import binds. -/
theorem schemaTarget_safe : Safe 5 Outlook.Aligned schemaTarget fun _ => Outlook.Aligned := by
  refine Safe.test 1 4 (seesWordAt_looks 0 "namespace").safe ?_ ?_
  · refine Safe.bind 0 4 (takeKeyword_plain.of_imp fun _ h => ⟨h.1, h.2.kindAt⟩) fun _ => ?_
    exact prefixBinding_safe.mono (by decide)
  refine Safe.test 1 3 (seesWordAt_looks 0 "default").safe ?_ (Safe.pure 3 _ fun _ h => h.1.1)
  refine Safe.bind 0 3 (takeKeyword_plain.of_imp fun _ h => ⟨h.1.1, h.2.kindAt⟩) fun _ => ?_
  exact (inOrder_cons_safe (expectWord_safe _) (inOrder_cons_safe (expectWord_safe _) inOrder_nil_safe)).mono (by decide)

/-- A schema import has two words in front. -/
theorem schemaImport_safe : Declares 24 2 schemaImport :=
  .of_words (by decide) <|
    inOrder_cons_safe schemaTarget_safe (inOrder_cons_safe (stringLiteral_safe _)
      (inOrder_cons_safe locationHints_safe inOrder_nil_safe))

/-- What a module import binds can be read wherever no comment or literal is cut apart. -/
theorem moduleTarget_safe : Safe 4 Outlook.Aligned moduleTarget fun _ => Outlook.Aligned := by
  refine Safe.test 1 3 (seesWordAt_looks 0 "namespace").safe ?_ (Safe.pure 3 _ fun _ h => h.1)
  exact Safe.bind 0 3 (takeKeyword_plain.of_imp fun _ h => ⟨h.1, h.2.kindAt⟩) fun _ => prefixBinding_safe

/-- A module import has two words in front. -/
theorem moduleImport_safe : Declares 23 2 moduleImport :=
  .of_words (by decide) <|
    inOrder_cons_safe moduleTarget_safe (inOrder_cons_safe (stringLiteral_safe _)
      (inOrder_cons_safe locationHints_safe inOrder_nil_safe))

end QueryStubs.Grammar
