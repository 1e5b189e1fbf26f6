import QueryStubs.Proofs.Lenient.Yields

/-!
# Types and parameters in broken sources

Whatever was wrong before: a type, a list of parameters and the name of a function that are complete are made as their forms say
(`optionalType_yields`, `paramList_yields`, `expectQName_yields`). What is not complete is a node of its own kind or nothing, and in no case
a node of another kind.
-/

namespace QueryStubs.Grammar

open QueryStubs

variable {P : Outlook → Prop} {C : NodeKind × List Tree → Prop}

/-! ## Names and marks -/

/-- An expected lexeme that is found is one. -/
theorem expect_yields (kind : TokenKind) (what : String) : Yields P (expect kind what) id (.mark kind) := by
  unfold expect
  rw [accept_bind]
  exact .look (sees_head kind) fun b => .ite (fun hb => .thenPure (.takeMark fun o h => h.2.mp hb) true) fun _ => .missing _ _

/-- A name that is read is one. -/
theorem qname_yields : Yields (fun o => IsKind .name o.head) qname (fun _ => true) .qname := by
  refine .look (sees_head .name) fun b => .look (demand_keeps _ _) fun _ => ?_
  refine .node .qname (Q := fun o => IsKind .name o.head) (.of_past fun c hp _ => ?_) fun o h => o.head_placed ▸ h.1.1
  obtain ⟨l, ls, ha, ho, hk⟩ := IsKind.outlook_eq hp
  rw [ho]
  rcases qnameInside_past ha with ⟨k, m, ms, rfl, ⟨hkk, hkl⟩, ⟨hmk, hml⟩, hpast⟩ | ⟨-, hpast⟩
  · refine ⟨_, [l, k, m], ms, hpast, .first ?_⟩
    exact .prefixed ms _ _ hk hkk (by simp [Lexeme.touches, hkl]) hmk (by simp [Lexeme.touches, hml])
  · exact ⟨_, [l], ls, hpast, .second (.one ls _ _ (decide_eq_true hk))⟩

/-- An expected name that is found is one. -/
theorem expectQName_yields (what : String) : Yields P (expectQName what) id .qname :=
  .look (sees_head .name) fun _ => .ite (fun hb => .thenPure (qname_yields.of_imp fun _ h => h.2.mp hb) true) fun _ => .missing _ _

/-- In any case, a name is added or nothing. -/
theorem expectQName_adds (what : String) (h : ∀ us, C (.qname, us)) : Adds (expectQName what) C := by
  have hqname : Adds qname C :=
    .bind (.of_keeps (sees_head .name)) fun _ => .bind (.of_keeps (demand_keeps _ _)) fun _ => .node .qname _ h
  exact .bind (.of_keeps (sees_head .name)) fun _ =>
    .ite (.bind hqname fun _ => .pure true) (.bind (.reportNext _ _) fun _ => .pure false)

/-! ## Types -/

/-- A mark of occurrence is one, or there is none. -/
theorem occurrenceMark_yields : Yields P occurrenceMark (fun _ => true) .occurrence := by
  refine .look (nextKind_head TokenKind.isOccurrence) fun a => .ite (fun hb => .first ?_) fun _ => .second (.pure ())
  exact .node .occurrence (Q := fun o => IsOf TokenKind.isOccurrence o.head) (.take fun _ h => h) fun o h => o.head_placed ▸ h.2.mp hb

/-- A form that may be followed by a mark, read with the mark. -/
theorem marked_yields {r : Rule Bool} {f : Form} (h : Yields P r id f) :
    Yields P (r >>= fun b => if b = true then occurrenceMark >>= fun _ => pure true else pure false) id (.seq f .occurrence) :=
  .andThen h (.thenPure occurrenceMark_yields true)

/-- A type with nothing in its parentheses that is closed is one. -/
theorem emptyParens_yields (kind : NodeKind) (word : String) :
    Yields (Outlook.Test word) (emptyParens kind) id (.emptyParens kind word) := by
  refine .node kind (Q := Outlook.Test word) ?_ fun _ h => h.placed
  refine .andNext (Q := fun o => IsKind .parenOpen o.head) (.takeWord fun _ h => h.1)
    (fun o ts o' h hb => Outlook.kindAt_zero.mp ((kindAt_behind hb).mpr h.2)) ?_
  refine .look (sees_head .parenOpen) fun b => .look (demand_keeps _ _) fun _ => ?_
  exact .andNext (Q := fun _ => True) (.takeMark fun _ h => h.1.1) (fun _ _ _ _ _ => trivial) (expect_yields _ _)

/-- At the end of the source the bracket stays open. -/
theorem balancedStep_end (openKind closeKind : TokenKind) (unclosed : DiagnosticKind) (note : String) (opening : Span) (depth : Nat)
    {c : Cursor} (ha : c.ahead = []) :
    ∃ d, balancedStep openKind closeKind unclosed note opening depth c = ((false, depth), d) := by
  unfold balancedStep
  obtain ⟨kind, d, he, hd, -⟩ := nextKind_looks.keeps.peel (c := c) rfl _
  rw [he]
  obtain ⟨b, d, he, hd, hb⟩ := atEnd_looks.keeps.peel hd _
  rw [he]
  obtain rfl : b = true := hb.mpr ha
  exact ⟨_, rfl⟩

/-- A bracketed region that is closed is balanced. -/
theorem balanced_yields {openKind closeKind : TokenKind} (hne : closeKind ≠ openKind) (unclosed : DiagnosticKind) (note : String) :
    Yields (fun o => IsKind openKind o.head) (balanced openKind closeKind unclosed note) id (.bracketed openKind closeKind) := by
  refine .of_past fun c hp hg => ?_
  obtain ⟨l, ls, ha, ho, hk⟩ := IsKind.outlook_eq hp
  rw [ho]
  rcases depthAfter_split (· = openKind) (· = closeKind) (fun _ => false) 0 ls with ⟨m, hm⟩ | ⟨run, k, rest, rfl, hr, hkk⟩
  · -- The bracket is not closed, so the result is not good.
    obtain ⟨opening, d, he, hd⟩ := balanced_opened openKind closeKind unclosed note ha
    obtain ⟨e, hloop, hed⟩ := (balancedStep_carries unclosed note opening hm).loop hd (List.append_nil ls).symm
    obtain ⟨z, hz⟩ := balancedStep_end openKind closeKind unclosed note opening (m + 1) (congrArg Reading.ahead hed)
    rw [he, hloop, repeatRule_done hz] at hg
    simp at hg
  · have hkk : k.kind = closeKind := of_decide_eq_true (hkk.2.resolve_right Bool.false_ne_true)
    obtain ⟨-, hpast⟩ := balanced_past unclosed note ha hr hkk hne
    refine ⟨_, _, rest, hpast, ?_⟩
    rw [show reachedBy c.reached (l :: run ++ [k]) = k.span.stop from reachedBy_append _ _ _]
    exact (builds_bracketed_iff hk).mpr ⟨run, k, rest, rfl, hr, hkk, rfl, rfl⟩

/-- A kind test that is closed is one. -/
theorem kindTest_yields : Yields (fun o => ∃ word ∈ kindTestNames, o.Test word) kindTest id .kindTest := by
  refine .node .kindTest (Q := fun o => ∃ word ∈ kindTestNames, o.Test word) ?_ fun o ⟨word, hm, h⟩ => ⟨word, hm, h.placed⟩
  refine .andNext (Q := fun o => IsKind .parenOpen o.head) (.takeKeyword fun o ⟨word, hm, h⟩ => ⟨word, hm, h.1⟩)
    (fun o ts o' ⟨_, _, h⟩ hb => Outlook.kindAt_zero.mp ((kindAt_behind hb).mpr h.2)) (balanced_yields (by decide) _ _)

/-- A type that starts with a word and a parenthesis is one if it is closed. -/
theorem testType_yields (name : String) : Yields (Outlook.Test name) (testType name) id .testType := by
  unfold testType
  split
  · next hn => exact .first (hn ▸ emptyParens_yields _ _)
  refine .second ?_
  split
  · next hn => exact .first (marked_yields (hn ▸ emptyParens_yields _ _))
  refine .second ?_
  split
  · next hn => exact .first (marked_yields (kindTest_yields.of_imp fun o h => ⟨name, by simpa using hn, h⟩))
  · exact .missing _ _

/-- An atomic type that is found is one. -/
theorem atomicType_yields : Yields (fun o => IsKind .name o.head) atomicType id .atomicType :=
  .andNext (Q := fun _ => True) (.node .atomicType qname_yields fun o h => o.head_placed ▸ h) (fun _ _ _ _ _ => trivial)
    (.thenPure occurrenceMark_yields true)

/-- An item type that is found is one. -/
theorem itemType_yields : Yields P itemType id .itemType := by
  refine .look (sees_head .name) fun b => .ite (fun hb => ?_) fun _ => .missing _ _
  have hatomic : ∀ {Q : Outlook → Prop}, (∀ o, Q o → IsKind .name o.head) → Yields Q atomicType id .itemType :=
    fun hQ => .first (atomicType_yields.of_imp hQ)
  refine .look nextText_looks.keeps fun name => .look (seesTouching_looks 1 .colon).keeps fun _ =>
    .ite (fun _ => hatomic fun o h => h.1.1.2.mp hb) fun _ => ?_
  refine .look (seesAt_looks 1 .parenOpen).keeps fun _ => .ite (fun hp => .second ?_) fun _ => hatomic fun o h => h.1.1.1.2.mp hb
  exact (testType_yields name).of_imp fun o ⟨⟨⟨⟨_, hn⟩, hname⟩, _⟩, hparen⟩ => ⟨(hn.mp hb).isWord hname, hparen.mp hp⟩

/-- A declared type that is found is one. -/
theorem typeDecl_yields : Yields (fun o => IsWord "as" o.head) typeDecl id .typeDecl := by
  refine .node .typeDecl (Q := fun o => IsWord "as" o.head) ?_ fun o h => o.head_placed ▸ h
  exact .andNext (Q := fun _ => True) (.takeWord fun _ h => h) (fun _ _ _ _ _ => trivial) (.leadNode .sequenceType itemType_yields)

/-- A type that may be left out is one or is left out. -/
theorem optionalType_yields : Yields P optionalType id (.optional .typeDecl) :=
  .look (seesWord_head "as") fun _ => .ite (fun hb => .first (typeDecl_yields.of_imp fun _ h => h.2.mp hb)) fun _ => .second (.pure true)

/-- In any case, a type declaration is added or nothing. -/
theorem optionalType_adds (h : ∀ us, C (.typeDecl, us)) : Adds optionalType C :=
  .bind (.of_keeps (seesWord_head "as")) fun _ => .ite (.node .typeDecl _ h) (.pure true)

/-! ## Parameters -/

/-- A parameter that is complete is one. -/
theorem param_yields : Yields (fun o => IsKind .dollar o.head) param id .param := by
  refine .node .param (Q := fun o => IsKind .dollar o.head) ?_ fun o h => o.head_placed ▸ h
  exact .andNext (Q := fun _ => True) (.takeMark fun _ h => h) (fun _ _ _ _ _ => trivial)
    (.andThen (expectQName_yields _) optionalType_yields)

/-- Parameters that are all complete are a list of them. -/
theorem params_yields : Yields (fun _ => True) (repeatRule paramStep true) id (.listOf .param) := by
  refine .loop (L := fun _ => .listOf .param) (Q := fun _ _ => True) (fun a n again hagain => ?_) true
  rw [paramStep_bind]
  refine .look (sees_head .dollar) fun b => .ite (fun hb => ?_) fun _ => .missing _ _
  refine .bind (Q := fun o => o.ahead.length ≤ n) (param_yields.of_imp fun _ h => h.2.mp hb)
    (fun o ts o' h hb => h.1.2 ▸ hb.length_le) (fun ok hok => ?_) fun ok hok => ?_
  · obtain rfl : ok = true := hok
    refine .conv (f := .optional (.seq (.mark .comma) (.listOf .param))) ?_ fun _ _ _ => Form.many_iff.mp
    refine .look (sees_head .comma) fun _ => .ite (fun hc => .first ?_) fun _ => .second (.pure true)
    refine .andNext (Q := fun o => True ∧ o.ahead.length < n) (.takeMark fun _ h => h.2.mp hc) (fun o ts o' h hb => ?_) (hagain true)
    exact ⟨trivial, Nat.lt_of_lt_of_le hb.length_lt h.1⟩
  · obtain rfl : ok = false := hok
    exact fun _ => rfl

/-- Parameters that are closed have their parenthesis. -/
theorem closeParams_yields (opening : Span) : Yields P (closeParams opening) id (.mark .parenClose) := by
  unfold closeParams
  rw [accept_bind]
  refine .look (sees_head .parenClose) fun _ => .ite (fun hb => .thenPure (.takeMark fun o h => h.2.mp hb) true) fun _ => ?_
  exact .look atEnd_looks.keeps fun _ => .ite (fun _ => .never fun _ => rfl) fun _ => .missing _ _

/-- A list of parameters that is closed, and of which each is complete, is one. -/
theorem paramList_yields : Yields (fun o => IsKind .parenOpen o.head) paramList id .paramList := by
  refine .node .paramList (Q := fun o => IsKind .parenOpen o.head) (.look nextSpan_looks.keeps fun opening => ?_) fun o h => o.head_placed ▸ h
  refine .andNext (Q := fun _ => True) (.takeMark fun _ h => h.1) (fun _ _ _ _ _ => trivial) ?_
  refine .conv (.look (sees_head .parenClose) fun _ => .ite (fun _ => .first (closeParams_yields opening)) fun _ => .second ?_)
    fun _ _ _ => Form.optional_seq_iff.mp
  exact .andThen (params_yields.of_imp fun _ _ => trivial) (closeParams_yields opening)

end QueryStubs.Grammar
