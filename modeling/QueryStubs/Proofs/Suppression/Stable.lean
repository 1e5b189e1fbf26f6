import QueryStubs.Proofs.Suppression.Hiding

/-!
# Hiding once is enough

A report that is shown is hidden by no report that hides others, so by none of those that were visited before it: it hides others
itself (`Diagnostic.mem_hiders_of_mem_shown`). So of the reports that are shown none hides another, and to hide among them again changes
nothing (`Diagnostic.shown_stable`).
-/

namespace QueryStubs

namespace Diagnostic

variable {a b d : Diagnostic} {found reports : List Diagnostic}

/-- What a report hides is what it strictly contains and outranks, and, of what starts where it starts, the structural if it is a root
cause, and what it outranks, unless it is structural and the other a root cause. -/
theorem hides_iff :
    a.hides b = true ↔
      (a.span.StrictlyContains b.span ∧ a.kind.Outranks b.kind) ∨
        (a.span.start = b.span.start ∧
          ((a.kind.isRootCause = true ∧ b.kind.isStructural = true) ∨
            (¬(a.kind.isStructural = true ∧ b.kind.isRootCause = true) ∧ a.kind.Outranks b.kind))) := by
  by_cases h : a.span.start = b.span.start
  · have hn : ¬ a.span.StrictlyContains b.span := fun hc => Nat.lt_irrefl _ (h ▸ hc.1)
    simp [hides, h, hn, imp_iff_not_or]
  · simp [hides, h]

/-! ## Who hides others -/

/-- The reports that hide others are found one after another. -/
theorem hidersFrom_cons (found : List Diagnostic) (r : Diagnostic) (reports : List Diagnostic) :
    hidersFrom found (r :: reports) = hidersFrom (if found.any (·.hides r) then found else found ++ [r]) reports := rfl

/-- What hides others goes on to do so, whatever is visited later. -/
theorem mem_hidersFrom_of_mem (h : a ∈ found) (reports : List Diagnostic) : a ∈ hidersFrom found reports := by
  induction reports generalizing found with
  | nil => exact h
  | cons r reports ih =>
    rw [hidersFrom_cons]
    split
    · exact ih h
    · exact ih (List.mem_append_left _ h)

/-- A report that no report hides which hides others is one of those itself. -/
theorem mem_hidersFrom (hd : d ∈ reports) (h : ∀ a ∈ hidersFrom found reports, a.hides d = false) : d ∈ hidersFrom found reports := by
  induction reports generalizing found with
  | nil => cases hd
  | cons r reports ih =>
    rw [hidersFrom_cons] at h ⊢
    rcases List.mem_cons.mp hd with rfl | hd
    · -- The reports found so far go on to hide others, so none of them hides this one.
      have hfound : found.any (·.hides d) = false := by
        rw [List.any_eq_false]
        intro a ha
        have hlater : a ∈ hidersFrom (if found.any (·.hides d) then found else found ++ [d]) reports := by
          refine mem_hidersFrom_of_mem ?_ reports
          split
          · exact ha
          · exact List.mem_append_left _ ha
        simp [h a hlater]
      rw [if_neg (by simp [hfound])]
      exact mem_hidersFrom_of_mem (List.mem_append_right _ (List.mem_singleton.mpr rfl)) reports
    · exact ih hd h

/-- A report that is shown is one of those that hide others. -/
theorem mem_hiders_of_mem_shown (h : d ∈ shown reports) : d ∈ hiders reports := by
  obtain ⟨hd, hn⟩ := mem_shown.mp h
  exact mem_hidersFrom hd hn

/-! ## What is shown -/

/-- Of the reports that are shown none hides another. -/
theorem not_hides_of_mem_shown (ha : a ∈ shown reports) (hb : b ∈ shown reports) : a.hides b = false :=
  (mem_shown.mp hb).2 a (mem_hiders_of_mem_shown ha)

/-- Reports of which none hides another are all shown. -/
theorem shown_of_not_hides (h : ∀ a ∈ reports, ∀ b ∈ reports, a.hides b = false) : shown reports = reports := by
  refine List.filter_eq_self.mpr fun b hb => ?_
  rw [Bool.not_eq_true', List.any_eq_false]
  intro a ha
  simp [h a (mem_of_mem_hiders ha) b hb]

/-- Whatever reports are made, in whatever order: what is shown of them is some of them, in the order in which they were made; of two
that are shown neither strictly contains the other and outranks it, and where both start together, it is not so that one is a root cause
and the other structural, nor that one outranks the other, unless that one is structural and the other a root cause; and of the reports
that are shown all are shown again. -/
theorem shown_stable (reports : List Diagnostic) :
    (shown reports).Sublist reports ∧
      (∀ a ∈ shown reports, ∀ b ∈ shown reports,
        ¬(a.span.StrictlyContains b.span ∧ a.kind.Outranks b.kind) ∧
          (a.span.start = b.span.start →
            ¬(a.kind.isRootCause = true ∧ b.kind.isStructural = true) ∧
              (a.kind.Outranks b.kind → a.kind.isStructural = true ∧ b.kind.isRootCause = true))) ∧
        shown (shown reports) = shown reports := by
  refine ⟨List.filter_sublist, fun a ha b hb => ?_, shown_of_not_hides fun a ha b hb => not_hides_of_mem_shown ha hb⟩
  have hn : ¬ a.hides b = true := by simp [not_hides_of_mem_shown ha hb]
  rw [hides_iff, not_or] at hn
  refine ⟨hn.1, fun hstart => ?_⟩
  have htogether := fun h => hn.2 ⟨hstart, h⟩
  refine ⟨fun h => htogether (.inl h), fun hrank => ?_⟩
  by_contra hkinds
  exact htogether (.inr ⟨hkinds, hrank⟩)

end Diagnostic

end QueryStubs
