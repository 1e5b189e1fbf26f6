import QueryStubs.Grammar.Module
import QueryStubs.Proofs.Built.Writes

/-!
# What the builder comes to: names, literals and types

Of each rule that declarations are made of it is said here where it may start, and that it is settled where its answer is no. Two rules ask
what touches the lexeme taken last, and so may not look past trivia before they do: the one for qualified names and the one for literals.
A sequence type starts right behind the keyword in front of it, and so has the trivia between the two inside.
-/

namespace QueryStubs.Grammar

open QueryStubs

variable {P : Bool → Outlook → Prop}

/-! ## Single lexemes -/

/-- What expects a lexeme is settled. -/
theorem expect_settled (kind : TokenKind) (what : String) : Writes P (expect kind what) Settled :=
  (accept_writes kind).bind fun _ => .ite (fun _ => yes_settled) fun _ => missing_settled _ _

/-- Accepting one of some words writes it. -/
theorem acceptWordOf_writes (words : List String) : Writes P (acceptWordOf words) fun _ => Anyhow := by
  induction words generalizing P with
  | nil => exact .pure false fun _ _ _ => trivial
  | cons word words ih =>
    refine (seesWord_looked word).bind fun _ => .ite (fun _ => ?_) fun _ => ih
    exact takeKeyword_writes.bind fun _ => .pure true fun _ _ _ => trivial

/-- What expects one of some words is settled. -/
theorem expectWordOf_settled (words : List String) : Writes P (expectWordOf words) Settled :=
  (acceptWordOf_writes words).bind fun _ => .ite (fun _ => yes_settled) fun _ => missing_settled _ _

/-- What is skipped is written, behind the trivia in front of it. -/
theorem skipUntil_writes {stop : Rule Bool} (hstop : Writes P stop fun _ => Looked) (hshows : ∀ b o, P b o → Shows b o)
    (hlooked : ∀ o, P true o) : Writes P (skipUntil stop) fun _ => Anyhow := by
  have hagain : Writes Looked stop fun _ => Looked := hstop.of_imp fun b o hb => (show b = true from hb) ▸ hlooked o
  have hstep : ∀ a, Writes Looked (skipStep stop a) fun _ => Looked := by
    intro a
    refine (atEnd_writes fun _ _ h => .inl h).bind fun _ => .ite (fun _ => .pure _ fun _ _ h => h.1) fun _ => ?_
    refine (hagain.of_imp fun _ _ h => h.1).bind fun _ => .ite (fun _ => .pure _ fun _ _ h => h) fun _ => ?_
    exact take_writes.bind fun _ => lookPast_looked.bind fun _ => .pure _ fun _ _ h => h
  have hloop : Writes Looked (repeatRule (skipStep stop) ()) fun _ => Looked := repeatRule_keeps hstep ()
  refine (atEnd_writes hshows).bind fun _ => .ite (fun _ => .pure _ fun _ _ _ => trivial) fun _ => ?_
  refine (hstop.of_imp fun _ _ h => h.1).bind fun _ => .ite (fun _ => .pure _ fun _ _ _ => trivial) fun _ => ?_
  exact (node_writes .error hloop fun _ _ h => ⟨h, rfl⟩).imp (fun _ _ h => h) fun _ _ _ _ => trivial

/-! ## Names and literals -/

/-- Where a lexeme touches, no trivia come next. -/
theorem Outlook.TouchingAt.trivia {o : Outlook} {kind : TokenKind} (h : o.TouchingAt 0 kind) : o.trivia = [] := by
  obtain ⟨_ | ⟨l, ls⟩, tail, reached⟩ := o
  · cases h
  · simp only [TouchingAt, List.getElem?_cons_zero, Option.any_some, Bool.and_eq_true] at h
    exact List.isEmpty_iff.mp h.1

/-- Behind the lexeme taken last tokens are counted as long as the trivia there were not looked past. -/
theorem countsFromLast_of_fresh (c : Cursor) (h : Fresh c.builder.looked c.outlook) :
    (if 0 = 0 then c.countsFromLast else c.countsFromNext) = true := by
  have h : c.builder.looked = false := h
  rw [if_pos rfl, Cursor.countsFromLast, h]
  rfl

/-- From the next lexeme on they are once these were. -/
theorem countsFromNext_of_looked (i : Nat) (c : Cursor) (h : Looked c.builder.looked c.outlook) :
    (if i + 1 = 0 then c.countsFromLast else c.countsFromNext) = true := by
  have h : c.builder.looked = true := h
  rw [if_neg (Nat.succ_ne_zero i), Cursor.countsFromNext, h]
  rfl

/-- A name is written where one comes next. -/
theorem qname_writes : Writes (fun _ o => o.Goes) qname fun _ => Anyhow := by
  have hsecond : Writes (fun l o => Fresh l o ∧ o.TouchingAt 0 .colon) (seesTouching 1 .name) fun _ => Anyhow := by
    refine (seesTouching_writes 1 .name fun c hc => ?_).imp (fun _ _ h => h) fun _ _ _ _ => trivial
    rw [if_neg Nat.one_ne_zero, Cursor.countsFromNext, Cursor.nextTrivia_eq, hc.2.trivia]
    exact Bool.or_true _
  have hinside : Writes (fun _ o => o.Goes)
      (do take; if ← seesTouching 0 .colon then if ← seesTouching 1 .name then take; take) fun _ => Anyhow := by
    refine take_fresh.bind fun _ => (seesTouching_writes 0 .colon countsFromLast_of_fresh).bind fun b => ?_
    refine .ite (fun hb => ?_) fun _ => .pure _ fun _ _ _ => trivial
    refine (hsecond.of_imp fun _ _ h => ⟨h.1, h.2 hb⟩).bind fun _ => .ite (fun _ => ?_) fun _ => .pure _ fun _ _ _ => trivial
    exact take_writes.bind fun _ => take_writes
  refine (sees_writes .name).bind fun _ => (demand_writes _ _).bind fun _ => ?_
  exact node_writes .qname hinside fun _ _ h => ⟨h.1, h.2.1.placed⟩

/-- What expects a name is settled. -/
theorem expectQName_settled (what : String) : Writes P (expectQName what) Settled := by
  refine (sees_looked .name).bind fun _ => .ite (fun hb => ?_) fun _ => missing_settled _ _
  exact (qname_writes.of_imp fun _ _ h => (h.2.mp hb).goes).bind fun _ => yes_settled

/-- What expects one without a prefix is. -/
theorem expectNCName_settled (what : String) : Writes P (expectNCName what) Settled := by
  refine (sees_looked .name).bind fun _ => .ite (fun _ => ?_) fun _ => missing_settled _ _
  refine (seesTouching_writes 1 .colon fun c hc => countsFromNext_of_looked 0 c hc.1).bind fun _ => .ite (fun _ => missing_settled _ _) fun _ => ?_
  exact take_writes.bind fun _ => yes_settled

/-- The tokens of a literal are written where one comes next. -/
theorem literalTokens_writes : Writes (fun _ o => o.Goes) literalTokens fun _ => Anyhow := by
  have hend : ∀ opening : Option TokenKind, Writes Fresh (do
      let closing ← peekRaw 0
      demand (closing.any (·.touches) && closing.map (·.kind) = opening) .openLiteral
      take) fun _ => Anyhow :=
    fun opening => (peekRaw_writes 0 countsFromLast_of_fresh).bind fun _ => (demand_writes _ _).bind fun _ => take_writes
  refine nextKind_writes.bind fun opening => (take_fresh.of_imp fun _ _ h => h.2.1).bind fun _ => ?_
  refine (seesTouching_writes 0 .literalText countsFromLast_of_fresh).bind fun b => .ite (fun hb => ?_) fun _ => ?_
  · exact (take_fresh.of_imp fun _ _ h => (h.2 hb).goes).bind fun _ => hend opening
  · exact (hend opening).of_imp fun _ _ h => h.1

/-- What expects a literal is settled. -/
theorem stringLiteral_settled (what : String) : Writes P (stringLiteral what) Settled := by
  refine nextKind_looked.bind fun kind => .ite (fun hb => ?_) fun _ => missing_settled _ _
  obtain ⟨k, rfl⟩ := Option.isSome_iff_exists.mp (Option.isSome_of_any hb)
  refine (node_writes .str literalTokens_writes fun _ o h => ⟨h.1, ?_⟩).bind fun _ => yes_settled
  have hnext : o.KindAt 0 k := h.2.symm
  exact hnext.goes.placed

/-! ## Types -/

/-- A round of a bracketed region that goes on has taken a lexeme. -/
theorem balancedStep_shorter {openKind closeKind : TokenKind} {unclosed : DiagnosticKind} {note : String} {opening : Span} {depth : Nat}
    {c : Cursor} (h : (balancedStep openKind closeKind unclosed note opening depth c).1.1 = true) :
    (balancedStep openKind closeKind unclosed note opening depth c).2.ahead.length < c.ahead.length := by
  obtain ⟨hkind, -⟩ := nextKind_looks c
  obtain ⟨hend, hleft, -⟩ := atEnd_looks (nextKind c).2
  have hsame : (atEnd (nextKind c).2).2.ahead = c.ahead := congrArg Reading.ahead (hend.trans hkind)
  have hrun : balancedStep openKind closeKind unclosed note opening depth c =
      (if (atEnd (nextKind c).2).1 = true then reportUnclosed unclosed note opening >>= fun _ => pure (false, depth)
        else take >>= fun _ => if (nextKind c).1 = some openKind then pure (true, depth + 1)
          else if (nextKind c).1 = some closeKind then pure (1 < depth, depth - 1) else pure (true, depth))
        (atEnd (nextKind c).2).2 := rfl
  rw [hrun] at h ⊢
  rw [← hsame]
  have hahead : (atEnd (nextKind c).2).1 = true ↔ (atEnd (nextKind c).2).2.ahead = [] := by
    rw [hleft, hend]
    rfl
  generalize (atEnd (nextKind c).2).2 = d at h hahead ⊢
  generalize (atEnd (nextKind c).2).1 = b at h hahead ⊢
  cases b with
  | true => cases h
  | false =>
    obtain ⟨l, ls, hl⟩ := List.exists_cons_of_ne_nil fun hn => Bool.false_ne_true (hahead.mpr hn)
    have htake : (take d).2.ahead = ls := by
      change (d.advance id).ahead = ls
      rw [Cursor.advance, hl]
    have hanswer : ∀ e, ((if (nextKind c).1 = some openKind then pure (true, depth + 1)
        else if (nextKind c).1 = some closeKind then pure (1 < depth, depth - 1) else pure (true, depth) : Rule (Bool × Nat)) e).2 = e := by
      intro e
      split
      · rfl
      · split <;> rfl
    refine Nat.lt_of_le_of_lt (Nat.le_of_eq (congrArg (·.ahead.length) (hanswer (take d).2))) ?_
    rw [htake, hl]
    exact Nat.lt_succ_self _

/-- A bracketed region is written, and is settled where it is not closed. -/
theorem balanced_settled (openKind closeKind : TokenKind) (unclosed : DiagnosticKind) (note : String) :
    Writes P (balanced openKind closeKind unclosed note) Settled := by
  have hstep : ∀ opening depth, Writes Anyhow (balancedStep openKind closeKind unclosed note opening depth) fun r b o =>
      if r.1 = true then Anyhow b o else r.2 ≠ 0 → Shows b o := by
    intro opening depth
    refine nextKind_looked.bind fun kind => ?_
    refine (atEnd_writes fun _ _ h => .inl h.1).bind fun _ => .ite (fun _ => ?_) fun _ => ?_
    · exact (reportUnclosed_writes _ _ _).bind fun _ => .pure _ fun _ _ h _ => .inl h
    · refine take_writes.bind fun _ => ?_
      split
      · exact .pure _ fun _ _ _ => trivial
      · split
        · refine .pure _ fun b o _ => ?_
          by_cases hd : 1 < depth
          · simp [hd, Anyhow]
          · have hzero : depth - 1 = 0 := by omega
            simp [hd, hzero]
        · exact .pure _ fun _ _ _ => trivial
  have hshorter : ∀ opening depth c, (balancedStep openKind closeKind unclosed note opening depth c).1.1 = true →
      ¬ (balancedStep openKind closeKind unclosed note opening depth c).2.ahead.length < c.ahead.length → ∀ b o, Anyhow b o →
        (balancedStep openKind closeKind unclosed note opening depth c).1.2 ≠ 0 → Shows b o :=
    fun _ _ _ hgo hstuck _ _ _ => absurd (balancedStep_shorter hgo) hstuck
  refine nextSpan_looked.bind fun opening => take_writes.bind fun _ => ?_
  have hloop : Writes Anyhow (repeatRule (balancedStep openKind closeKind unclosed note opening) 1) fun depth b o => depth ≠ 0 → Shows b o :=
    repeatRule_writes (I := fun _ => Anyhow) (Q := fun depth b o => depth ≠ 0 → Shows b o) (hstep opening) (hshorter opening) 1
  refine hloop.bind fun depth => .pure _ fun b o h hd => h ?_
  simpa using hd

/-- A mark of occurrence is written if one comes next. -/
theorem occurrenceMark_writes : Writes P occurrenceMark fun _ => Anyhow := by
  refine nextKind_looked.bind fun _ => .ite (fun _ => ?_) fun _ => .pure _ fun _ _ _ => trivial
  exact node_looked .occurrence take_writes fun _ _ h => h.1

/-- Empty parentheses are written behind the trivia in front of their keyword, and are settled where they are not closed. -/
theorem emptyParens_settled (kind : NodeKind) : Writes Looked (emptyParens kind) Settled := by
  refine node_looked kind ?_ fun _ _ h => h
  refine takeKeyword_writes.bind fun _ => (sees_looked .parenOpen).bind fun _ => (demand_writes _ _).bind fun _ => ?_
  exact take_writes.bind fun _ => expect_settled _ _

/-- So is a kind test. -/
theorem kindTest_settled : Writes Looked kindTest Settled :=
  node_looked .kindTest (takeKeyword_writes.bind fun _ => balanced_settled _ _ _ _) fun _ _ h => h

/-- What follows a name and a parenthesis is settled where it is no type. -/
theorem testType_settled (name : String) : Writes Looked (testType name) Settled := by
  have hmarked : ∀ {r : Rule Bool}, Writes Looked r Settled →
      Writes Looked (do if ← r then occurrenceMark; return true else return false) Settled := by
    intro r hr
    refine hr.bind fun _ => .ite (fun _ => ?_) fun hb => .pure false fun _ _ h _ => h hb
    exact occurrenceMark_writes.bind fun _ => yes_settled
  unfold testType
  split
  · exact emptyParens_settled _
  · split
    · exact hmarked (emptyParens_settled _)
    · split
      · exact hmarked kindTest_settled
      · exact missing_settled _ _

/-- The name of an atomic type is written behind the trivia in front of it. -/
theorem atomicType_writes : Writes (fun b o => Looked b o ∧ o.Goes) atomicType Settled := by
  refine (node_writes .atomicType qname_writes fun _ _ h => ⟨h.1, h.2.placed⟩).bind fun _ => ?_
  exact occurrenceMark_writes.bind fun _ => yes_settled

/-- An item type is settled where there is none. -/
theorem itemType_settled : Writes P itemType Settled := by
  refine (sees_looked .name).bind fun _ => .ite (fun hb => ?_) fun _ => missing_settled _ _
  have hname : Writes (fun _ o => o.Goes) nextText fun _ b o => Looked b o ∧ o.Goes := nextText_writes
  refine (hname.of_imp fun _ _ h => (h.2.mp hb).goes).bind fun name => ?_
  refine (seesTouching_writes 1 .colon fun c hc => countsFromNext_of_looked 0 c hc.1).bind fun _ => .ite (fun _ => ?_) fun _ => ?_
  · exact atomicType_writes.of_imp fun _ _ h => h.1
  · have hparen : Writes (fun _ o => o.Goes) (seesAt 1 .parenOpen) fun b l o => Looked l o ∧ o.Goes ∧ (b = true ↔ o.KindAt 1 .parenOpen) :=
      seesAt_writes 1 .parenOpen
    refine (hparen.of_imp fun _ _ h => h.1.2).bind fun _ => .ite (fun _ => ?_) fun _ => ?_
    · exact (testType_settled name).of_imp fun _ _ h => h.1
    · exact atomicType_writes.of_imp fun _ _ h => ⟨h.1, h.2.1⟩

/-- A sequence type starts right behind its keyword, with the trivia behind that inside. -/
theorem typeDecl_settled : Writes (fun b o => Looked b o ∧ o.Goes) typeDecl Settled := by
  refine node_writes (S := fun _ o => o.Goes) .typeDecl ?_ fun _ _ h => ⟨h.1, h.2.placed⟩
  exact takeKeyword_fresh.bind fun _ => nodeWithLead_writes .sequenceType itemType_settled fun _ _ h => h

/-- A type that may be left out is settled where it is not complete. -/
theorem optionalType_settled : Writes P optionalType Settled := by
  refine (seesWord_looked "as").bind fun _ => .ite (fun hb => ?_) fun _ => yes_settled
  exact typeDecl_settled.of_imp fun _ _ h => ⟨h.1, (h.2.mp hb).goes⟩

end QueryStubs.Grammar
