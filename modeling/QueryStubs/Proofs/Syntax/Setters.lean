import QueryStubs.Proofs.Syntax.Declarations

/-!
# Reading setters and imports

Each is read as the words it was recognised by and what follows them. None of them makes a report unless it is an error, which
matters where a setter comes too late: the report of that is made where the setter started and must not be dropped.
-/

namespace QueryStubs.Grammar

open QueryStubs

variable {S : Prop} {P : Outlook → Prop} {F : Option Token → Prop}

/-- What a string literal may follow: anything that no name goes on with. -/
def NoName (t : Option Token) : Prop := ¬ IsKind .name t

/-- A string literal does not start with a name. -/
theorem str_leads_noName : Form.str.Leads F NoName := by
  refine str_leads.imp fun t h hn => ?_
  obtain ⟨u, rfl, hq⟩ := h
  rw [isKind_some.mp hn] at hq
  cases hq

/-- Words that come next in order. -/
def Outlook.Words (wss : List (List String)) (o : Outlook) : Prop :=
  ∀ i ws, wss[i]? = some ws → ∃ w ∈ ws, o.WordAt i w

/-- The words of a declaration, and what follows them. -/
theorem words_reads {wss : List (List String)} {rest : Rule Bool} {f : Form} (h : Reads S (fun _ => True) rest id f F) :
    Reads S (Outlook.Words wss) (takeKeywords wss.length >>= fun _ => rest) id (.seq (.keywords wss) f) F :=
  .andNext (Q := fun _ => True) (F := fun _ => True) (takeKeywords_reads wss) (fun _ _ _ _ _ => trivial) h (.any _)

/-! ## What setters have in common -/

theorem prefixBinding_reads : Reads S P prefixBinding id .prefixBinding F :=
  inOrder_cons_reads (expectNCName_reads _) (inOrder_one_reads (expect_reads rfl _)) (mark_leads.imp fun _ h => h.ne (by decide))

/-- A word and then a string literal. -/
theorem wordLiteral_reads (word what : String) :
    Reads S P (inOrder [expectWord word, stringLiteral what]) id (.row [.word word, .str]) F :=
  inOrder_cons_reads (F := fun _ => True) (expectWord_reads word) (inOrder_one_reads (stringLiteral_reads what)) (.any _)

theorem namespaceRest_reads :
    Reads S P (inOrder [prefixBinding, stringLiteral "namespace URI"]) id (.row [.prefixBinding, .str]) F :=
  inOrder_cons_reads (F := fun _ => True) prefixBinding_reads (inOrder_one_reads (stringLiteral_reads _)) (.any _)

theorem emptyOrderRest_reads :
    Reads S P (inOrder [expectWord "empty", expectWordOf ["greatest", "least"]]) id
      (.row [.word "empty", .keyword ["greatest", "least"]]) F :=
  inOrder_cons_reads (F := fun _ => True) (expectWord_reads _) (inOrder_one_reads (expectWordOf_reads _)) (.any _)

theorem copyNamespacesRest_reads :
    Reads S P (inOrder [expectWordOf ["preserve", "no-preserve"], expect .comma "`,` between copy-namespaces modes",
      expectWordOf ["inherit", "no-inherit"]]) id
      (.row [.keyword ["preserve", "no-preserve"], .mark .comma, .keyword ["inherit", "no-inherit"]]) F :=
  inOrder_cons_reads (F := fun _ => True) (expectWordOf_reads _)
    (inOrder_cons_reads (F := fun _ => True) (expect_reads rfl _) (inOrder_one_reads (expectWordOf_reads _)) (.any _)) (.any _)

/-! ## Places that an import may be found at -/

theorem locationStep_stays (a : Bool) : Stays (locationStep a) := by
  refine (accept_stays .comma).bind fun b => ?_
  cases b with
  | false => exact fun _ h => h
  | true =>
    refine (stringLiteral_reads (S := True) (P := fun _ => True) (F := fun _ => True) _).stays.bind fun ok => ?_
    cases ok <;> exact fun _ h => h

/-- A round of the loop, and what comes after it. -/
theorem locationStep_bind (a : Bool) (again : Bool → Rule Bool) :
    (locationStep a >>= fun r => if r.1 = true then again r.2 else pure r.2) = (sees .comma >>= fun b => if b = true then
      take >>= fun _ => stringLiteral "location URI after `,`" >>= fun ok => if ok = true then again true else pure false
      else pure true) := by
  refine (bind_assoc _ _ _).trans ((accept_bind .comma _).trans (congrArg _ (funext fun b => ?_)))
  cases b with
  | false => rfl
  | true =>
    have hplace : ((stringLiteral "location URI after `,`" >>= fun ok => if ok = true then pure (true, true) else pure (false, false)) >>=
        fun r : Bool × Bool => if r.1 = true then again r.2 else pure r.2) =
          (stringLiteral "location URI after `,`" >>= fun ok => if ok = true then again true else pure false) := by
      refine (bind_assoc _ _ _).trans (congrArg _ (funext fun ok => ?_))
      cases ok <;> rfl
    exact congrArg (fun x => take >>= fun _ => x) hplace

/-- What may follow places. -/
def NoComma (t : Option Token) : Prop := ¬ IsKind .comma t

theorem locationSteps_reads :
    Reads S (fun _ => True) (repeatRule locationStep true) id (.many (.seq (.mark .comma) .str)) NoComma := by
  refine .loop (L := fun _ => .many (.seq (.mark .comma) .str)) (Q := fun _ _ => True) locationStep_stays (fun a n again hagain => ?_) true
  rw [locationStep_bind]
  refine Reads.of_iff (.either (H := IsKind .comma) (sees_head .comma) ?_ (.seq mark_leads (.any _)) (.pure rfl)
    (.nothing fun _ h => h)) fun _ _ _ => Form.many_iff
  refine .andNext (Q := fun o => o.ahead.length < n) (F := fun _ => True) (.takeMark rfl) (fun o ts o' h hb => h.1.2 ▸ hb.length_lt) ?_ (.any _)
  refine .bind (Q := fun o => True ∧ o.ahead.length < n) (F := fun _ => True) (stringLiteral_reads _)
    (fun o ts o' h hb => ⟨trivial, Nat.lt_of_le_of_lt hb.length_le h⟩) (fun ok hok => ?_) (fun ok hok => ?_) (.any _)
  · obtain rfl : ok = true := hok
    exact hagain true
  · obtain rfl : ok = false := hok
    exact fun _ h => h

theorem locationHints_reads : Reads S P locationHints id .locations fun t => NoComma t ∧ NoName t := by
  refine .either (H := IsWord "at") (seesWord_head "at") ?_ (.seq word_leads (.any _)) (.pure rfl)
    (.nothing fun _ h hw => h.2 hw.isKind)
  refine .andNext (Q := fun _ => True) (F := fun _ => True) .takeWord (fun _ _ _ _ _ => trivial) ?_ (.any _)
  exact .andThen (F := fun _ => True) (stringLiteral_reads _) (locationSteps_reads.imp (fun _ h => h) fun _ h => h.1) (.any _)

/-! ## Imports -/

/-- `namespace p =`, where the word comes next -/
theorem namespaceTarget_reads :
    Reads S (fun o => P o ∧ IsWord "namespace" o.head) (takeKeyword >>= fun _ => prefixBinding) id
      (.seq (.word "namespace") .prefixBinding) F :=
  .andNext (Q := fun _ => True) (F := fun _ => True) .takeWord (fun _ _ _ _ _ => trivial) prefixBinding_reads (.any _)

theorem moduleTarget_reads :
    Reads S P moduleTarget id (.optional (.seq (.word "namespace") .prefixBinding)) NoName :=
  .either (H := IsWord "namespace") (seesWord_head "namespace") namespaceTarget_reads (.seq word_leads (.any _)) (.pure rfl)
    (.nothing fun _ h hw => h hw.isKind)

/-- Choices may be grouped in either way. -/
theorem Form.either_assoc {f g h : Form} {o o' : Outlook} {ts : List Tree} :
    (Form.either f (.either g h)).Builds o ts o' ↔ (Form.either (.either f g) h).Builds o ts o' := by
  constructor
  · intro hb
    cases hb with
    | first hb => exact .first (.first hb)
    | second hb =>
      cases hb with
      | first hb => exact .first (.second hb)
      | second hb => exact .second hb
  · intro hb
    cases hb with
    | first hb =>
      cases hb with
      | first hb => exact .first hb
      | second hb => exact .second (.first hb)
    | second hb => exact .second (.second hb)

theorem schemaTarget_reads :
    Reads S P schemaTarget id (.optional (.either (.seq (.word "namespace") .prefixBinding)
      (.seq (.word "default") (.row [.word "element", .word "namespace"])))) NoName := by
  refine Reads.of_iff (.either (H := IsWord "namespace") (seesWord_head "namespace") namespaceTarget_reads (.seq word_leads (.any _))
    (.either (H := IsWord "default") (seesWord_head "default") ?_ (.seq word_leads (.any _)) (.pure rfl)
      (.nothing fun _ h hw => h hw.isKind)) ?_) fun _ _ _ => Form.either_assoc
  · refine .andNext (Q := fun _ => True) (F := fun _ => True) .takeWord (fun _ _ _ _ _ => trivial) ?_ (.any _)
    exact inOrder_cons_reads (F := fun _ => True) (expectWord_reads _) (inOrder_one_reads (expectWord_reads _)) (.any _)
  · exact .either (.seq (word_leads.imp fun t h hw => absurd (h.unique hw) (by decide)) (.any _)) (.nothing fun _ h hw => h hw.isKind)

/-- A target, a URI and places. -/
theorem importRest_reads {target : Rule Bool} {f : Form} (what : String) (h : Reads S P target id f NoName) :
    Reads S P (inOrder [target, stringLiteral what, locationHints]) id (.row [f, .str, .locations]) (IsKind .semicolon) :=
  inOrder_cons_reads h (inOrder_cons_reads (F := fun _ => True) (stringLiteral_reads _)
    (inOrder_one_reads (locationHints_reads.imp (fun _ h => h) fun _ h => ⟨h.ne (by decide), h.ne (by decide)⟩)) (.any _))
    (.seq str_leads_noName (.any _))

/-! ## All declarations -/

/-- A declaration of each kind is read as its form. A function may be warned about; the others report nothing but errors. -/
theorem declBody_reads {kind : NodeKind} (hk : kind ∈ Form.setterKinds ∨ kind ∈ Form.otherKinds) :
    Reads (kind ≠ .functionDecl) (Outlook.Words (Form.declWords kind)) (declBody kind) id (.declBody kind) (IsKind .semicolon) := by
  have hcases : ∀ kind ∈ Form.setterKinds ++ Form.otherKinds, Reads (kind ≠ .functionDecl) (Outlook.Words (Form.declWords kind))
      (declBody kind) id (.declBody kind) (IsKind .semicolon) := by
    simp only [Form.setterKinds, Form.otherKinds, List.cons_append, List.nil_append, List.forall_mem_cons, List.not_mem_nil,
      false_imp_iff, implies_true, and_true]
    refine ⟨?_, ?_, ?_, ?_, ?_, ?_, ?_, ?_, ?_, ?_, ?_, ?_, ?_, ?_⟩
    · exact words_reads namespaceRest_reads
    · exact words_reads (wordLiteral_reads _ _)
    · exact words_reads (expectWordOf_reads _)
    · exact words_reads (stringLiteral_reads _)
    · exact words_reads (stringLiteral_reads _)
    · exact words_reads (expectWordOf_reads _)
    · exact words_reads (expectWordOf_reads _)
    · exact words_reads emptyOrderRest_reads
    · exact words_reads copyNamespacesRest_reads
    · exact words_reads (importRest_reads _ schemaTarget_reads)
    · exact words_reads (importRest_reads _ moduleTarget_reads)
    · exact words_reads varRest_reads
    · exact words_reads optionRest_reads
    · exact words_reads (functionRest_reads fun h => h rfl)
  exact hcases kind (List.mem_append.mpr hk)

end QueryStubs.Grammar
