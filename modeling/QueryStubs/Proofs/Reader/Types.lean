import QueryStubs.Grammar.SequenceType
import QueryStubs.Proofs.Reader.Terms

/-!
# Safe rules for sequence types

The scan of balanced brackets is the first that passes through string literals. It stops behind the bracket that closes it or at the
end of the source, and is aligned there.
-/

namespace QueryStubs.Grammar

open QueryStubs

/-- A closing bracket belongs to no literal. -/
theorem isPlain_of_isClosing {kind : TokenKind} (h : kind.isClosing = true) : kind.isPlain = true := by
  cases kind <;> first | rfl | cases h

/-- The bracket that comes next is passed once it is taken. -/
theorem opening_safe {n : Nat} (kind : TokenKind) (hk : kind.isPlain = true) {f : Span → Rule α} {Q : α → Outlook → Prop}
    (h : ∀ opening : Span, Safe n (fun o => o.Aligned ∧ o.Past [opening]) (f opening) Q) :
    Safe n (fun o => o.Aligned ∧ o.KindAt 0 kind) (nextSpan >>= fun opening => take >>= fun _ => f opening) Q := by
  refine (Safe.bind 0 n nextSpan_safe fun opening => ?_).mono (by omega)
  refine (Safe.bind 0 n (take_safe.of_imp fun o ⟨⟨ha, hk'⟩, hf, hs⟩ => ?_) fun _ => h opening).mono (by omega)
  obtain ⟨l, ls, hl, rfl⟩ := hk'.cons
  unfold Outlook.Aligned at ha
  rw [hl] at ha
  have hs := hs l ls hl
  subst hs
  exact ⟨l, ls, hl, ha.tail hk, by simpa [Outlook.Past] using ⟨hf, hf⟩⟩

/-- Whatever comes next in a scan can be taken, and its range is passed then. -/
theorem scanned_safe {n k : Nat} {spans : List Span} {f : Span → Rule α} {Q : α → Outlook → Prop}
    (h : ∀ span : Span, Safe n (fun o => (o.Within ∧ o.Past (span :: spans)) ∧ o.ahead.length < k) (f span) Q) :
    Safe n (fun o => ((o.Within ∧ o.Past spans) ∧ o.ahead.length = k) ∧ o.ahead ≠ [])
      (nextSpan >>= fun span => take >>= fun _ => f span) Q := by
  refine (Safe.bind 0 n nextSpan_safe fun span => ?_).mono (by omega)
  refine (Safe.bind 0 n (Q := fun _ o => ((o.Within ∧ o.Past [span]) ∧ o.ahead.length < k) ∧ o.Past spans) ?_
    fun _ => (h span).of_imp fun o ho => ?_).mono (by omega)
  · refine (take_safe.past spans).of_imp fun o ⟨⟨⟨⟨hw, hp⟩, hk⟩, hne⟩, hf, hs⟩ => ⟨?_, hp⟩
    obtain ⟨l, ls, hl⟩ := List.exists_cons_of_ne_nil hne
    unfold Outlook.Within at hw
    rw [hl] at hw hk
    have hs := hs l ls hl
    subst hs
    exact ⟨l, ls, hl, ⟨hw.tail, by simpa [Outlook.Past] using ⟨hf, hf⟩⟩, by simp only [List.length_cons] at hk ⊢; omega⟩
  · refine ⟨⟨ho.1.1.1, fun s hs => ?_⟩, ho.1.2⟩
    rcases List.mem_cons.mp hs with rfl | hs
    · exact ho.1.1.2 s (List.mem_singleton.mpr rfl)
    · exact ho.2 s hs

theorem balancedStep_safe {openKind closeKind : TokenKind} (hclose : closeKind.isClosing = true) (unclosed : DiagnosticKind)
    (note : String) (opening : Span) (depth k : Nat) :
    Safe 1 (fun o => (o.Within ∧ o.Past [opening]) ∧ o.ahead.length = k)
      (balancedStep openKind closeKind unclosed note opening depth) fun r o =>
        if r.1 = true then (o.Within ∧ o.Past [opening]) ∧ o.ahead.length < k else o.Aligned := by
  refine Safe.bind 1 0 nextKind_looks.safe fun kind => Safe.test 0 0 atEnd_looks.safe ?_ ?_
  · refine Safe.bind 0 0 (reportUnclosed_safe unclosed note fun o h => h.1.1.1.2) fun _ => Safe.pure 0 _ fun o h => ?_
    exact Outlook.aligned_of_nil h.2
  · have htake : Safe 0 (fun o => (o.Within ∧ kind = o.ahead[0]?.map (·.kind) ∧ o.ahead.length = k) ∧ o.ahead ≠ []) take
        fun _ o => o.Within ∧ o.ahead.length < k ∧ (kind = some closeKind → o.Aligned) := by
      refine take_safe.of_imp fun o ⟨⟨hw, hk, hl⟩, hne⟩ => ?_
      obtain ⟨l, ls, ha⟩ := List.exists_cons_of_ne_nil hne
      unfold Outlook.Within at hw
      rw [ha] at hw hk hl
      refine ⟨l, ls, ha, hw.tail, by simp only [List.length_cons] at hl ⊢; omega, fun hc => ?_⟩
      have hp : l.kind.isPlain = true := by
        have hk : closeKind = l.kind := Option.some.inj (hc.symm.trans hk)
        exact hk ▸ isPlain_of_isClosing hclose
      exact (hw.aligned hp).tail hp
    refine Safe.bind 0 0 ((htake.past [opening]).of_imp fun o h => ⟨⟨⟨h.1.1.1.1, h.1.2, h.1.1.2⟩, h.2⟩, h.1.1.1.2⟩)
      fun _ => ?_
    by_cases ho : kind = some openKind
    · rw [if_pos ho]
      exact Safe.pure 0 _ fun o h => ⟨⟨h.1.1, h.2⟩, h.1.2.1⟩
    · rw [if_neg ho]
      by_cases hc : kind = some closeKind
      · rw [if_pos hc]
        refine Safe.pure 0 _ fun o h => ?_
        split
        · exact ⟨⟨h.1.1, h.2⟩, h.1.2.1⟩
        · exact h.1.2.2 hc
      · rw [if_neg hc]
        exact Safe.pure 0 _ fun o h => ⟨⟨h.1.1, h.2⟩, h.1.2.1⟩

/-- A run of balanced brackets, of which the first comes next. -/
theorem balanced_safe {openKind closeKind : TokenKind} (hopen : openKind.isPlain = true) (hclose : closeKind.isClosing = true)
    (unclosed : DiagnosticKind) (note : String) :
    Safe 2 (fun o => o.Aligned ∧ o.KindAt 0 openKind) (balanced openKind closeKind unclosed note)
      fun _ => Outlook.Aligned := by
  refine opening_safe openKind hopen fun opening => ?_
  refine Safe.bind 2 0 (repeatRule_safe (n := 1) (I := fun _ o => o.Within ∧ o.Past [opening]) (Q := fun _ => Outlook.Aligned) (by decide)
    (balancedStep_safe hclose unclosed note opening) 1) (fun _ => Safe.pure 0 _ fun _ h => h) |>.of_imp fun o h => ?_
  exact ⟨.outside h.1, h.2⟩

/-! ## Item types and what follows them -/

theorem occurrenceMark_safe : Safe 1 Outlook.Aligned occurrenceMark fun _ => Outlook.Aligned := by
  refine Safe.bind 1 0 nextKind_looks.safe fun kind => Safe.ite (fun hb => ?_) fun _ => Safe.pure 0 _ fun _ h => h.1
  obtain ⟨k, rfl⟩ := Option.isSome_iff_exists.mp (Option.isSome_of_any hb)
  have hp : k.isPlain = true := by cases k <;> first | rfl | cases hb
  exact node_safe .occurrence (take_plain k hp) fun _ h => ⟨h.1.placed, Outlook.KindAt.placed h.2.symm⟩

/-- A keyword comes next and an opening parenthesis after it. -/
def Outlook.TestAhead (o : Outlook) : Prop := o.Aligned ∧ o.KindAt 0 .name ∧ o.KindAt 1 .parenOpen

/-- Placing trivia does not change that. -/
theorem Outlook.TestAhead.placed {o : Outlook} (h : o.TestAhead) : o.placed.TestAhead :=
  ⟨Outlook.Aligned.placed h.1, h.2.1.placed, h.2.2.placed⟩

/-- Behind the keyword of a test its parenthesis comes. -/
theorem takeKeyword_test :
    Safe 0 Outlook.TestAhead takeKeyword fun _ o => o.Aligned ∧ o.KindAt 0 .parenOpen := by
  refine takeKeyword_safe.of_imp fun o ⟨ha, hk, hp⟩ => ?_
  obtain ⟨l, ls, hl, hk⟩ := hk.cons
  unfold Outlook.Aligned at ha
  unfold Outlook.KindAt at hp
  rw [hl] at ha hp
  exact ⟨l, ls, hl, hk, ha.tail (by rw [hk]; rfl), hp⟩

theorem emptyParens_safe (kind : NodeKind) : Safe 2 Outlook.TestAhead (emptyParens kind) fun _ => Outlook.Aligned := by
  refine node_safe kind ?_ fun _ h => h.placed
  refine Safe.bind 0 2 takeKeyword_test fun _ => Safe.bind 1 1 (sees_looks .parenOpen).safe fun _ => ?_
  refine Safe.bind 0 1 (demand_safe _ fun _ h => h.2.mpr h.1.2) fun _ => ?_
  exact Safe.bind 0 1 ((take_plain .parenOpen rfl).of_imp fun _ h => h.1) fun _ => expect_plain .parenClose _ rfl

theorem kindTest_safe : Safe 2 Outlook.TestAhead kindTest fun _ => Outlook.Aligned :=
  node_safe .kindTest (Safe.bind 0 2 takeKeyword_test fun _ => balanced_safe rfl rfl _ _) fun _ h => h.placed

/-- A test and then, if it is complete, the mark after it. -/
theorem marked_safe {r : Rule Bool} (h : Safe 2 Outlook.TestAhead r fun _ => Outlook.Aligned) :
    Safe 3 Outlook.TestAhead (r >>= fun b => if b = true then occurrenceMark >>= fun _ => pure true else pure false)
      fun _ => Outlook.Aligned :=
  andThen_safe h (Safe.bind 1 0 occurrenceMark_safe fun _ => Safe.pure 0 _ fun _ h => h) fun _ h => h

theorem testType_safe (name : String) : Safe 3 Outlook.TestAhead (testType name) fun _ => Outlook.Aligned := by
  unfold testType
  split
  · exact (emptyParens_safe .emptySequence).mono (by decide)
  split
  · exact marked_safe (emptyParens_safe .anyItem)
  split
  · exact marked_safe kindTest_safe
  · exact Safe.bind 0 3 (report_safe _ _) fun _ => Safe.pure 3 _ fun _ h => h.1

theorem atomicType_safe : Safe 4 (fun o => o.Aligned ∧ o.KindAt 0 .name) atomicType fun _ => Outlook.Aligned := by
  refine Safe.bind 3 1 (node_safe .atomicType qname_safe fun _ h => ⟨h.1.placed, h.2.placed⟩) fun _ => ?_
  exact Safe.bind 1 0 occurrenceMark_safe fun _ => Safe.pure 0 _ fun _ h => h

theorem itemType_safe : Safe 7 Outlook.Aligned itemType fun _ => Outlook.Aligned := by
  refine Safe.test 1 6 (sees_looks .name).safe ?_ (Safe.bind 0 6 (report_safe _ _) fun _ => Safe.pure 6 _ fun _ h => h.1)
  refine Safe.bind 0 6 (nextText_looks.safe (P := fun o => o.Aligned ∧ o.KindAt 0 .name)) fun name => Safe.of_imp ?_ fun _ h => h.1
  refine Safe.test 1 5 (seesTouching_looks 1 .colon).safe ((atomicType_safe.of_imp fun _ h => h.1).mono (by decide)) ?_
  refine Safe.test 1 4 (seesAt_looks 1 .parenOpen).safe ?_ (atomicType_safe.of_imp fun _ h => h.1.1)
  exact ((testType_safe name).of_imp fun _ h => ⟨h.1.1.1, h.1.1.2, h.2⟩).mono (by decide)

theorem typeDecl_safe : Safe 7 (fun o => o.Aligned ∧ o.KindAt 0 .name) typeDecl fun _ => Outlook.Aligned :=
  node_safe .typeDecl (Safe.bind 0 7 takeKeyword_plain fun _ => nodeWithLead_safe .sequenceType itemType_safe)
    fun _ h => ⟨h.1.placed, h.2.placed⟩

theorem optionalType_safe : Safe 8 Outlook.Aligned optionalType fun _ => Outlook.Aligned :=
  Safe.test 1 7 (seesWordAt_looks 0 "as").safe (typeDecl_safe.of_imp fun _ h => ⟨h.1, h.2.kindAt⟩) (Safe.pure 7 _ fun _ h => h.1)

end QueryStubs.Grammar
