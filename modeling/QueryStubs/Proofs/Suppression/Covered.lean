import QueryStubs.Proofs.Suppression.Stable
import Mathlib.Logic.Relation

/-!
# What covers a report that is not shown

A report is not shown just if one that nothing visited before it hides, hides it in turn. That one need not be shown itself: a report
made after it can hide it, when it has hidden others already (`Diagnostic.covered_by_hidden`). Then what it has hidden stays hidden,
whereas the same reports made the other way round show it. Reports that are hidden when they are visited hide nothing.

Hiding leads from a report to one whose place comes later (`Diagnostic.errorPlace_lt_of_hides`), so there is no circle: each report that
is not shown lies at the end of a chain of reports each of which hides the next, and the first of which is shown
(`Diagnostic.dropped_covered`).
-/

namespace QueryStubs

namespace Diagnostic

variable {a b d r : Diagnostic} {reports before after : List Diagnostic}

/-! ## Who hides others -/

/-- The last report hides others unless one of those before it that hide others hides it. -/
theorem hiders_concat (reports : List Diagnostic) (r : Diagnostic) :
    hiders (reports ++ [r]) = if (hiders reports).any (·.hides r) then hiders reports else hiders reports ++ [r] := by
  unfold hiders hidersFrom
  rw [List.foldl_concat]

/-- The reports after one that nothing before it hides find it among those that hide others. -/
theorem hiders_split (h : ∀ b ∈ hiders before, b.hides a = false) :
    hiders (before ++ a :: after) = hidersFrom (hiders before ++ [a]) after := by
  have hany : (hiders before).any (·.hides a) = false := by
    rw [List.any_eq_false]
    intro b hb
    rw [h b hb]
    exact Bool.false_ne_true
  have hsplit : hiders (before ++ a :: after) = hidersFrom (hiders before) (a :: after) := List.foldl_append
  rw [hsplit, hidersFrom_cons, hany]
  rfl

/-- A report hides others just if, at some place it is made at, none of those before it that hide others hides it. -/
theorem mem_hiders_iff :
    a ∈ hiders reports ↔ ∃ before after, reports = before ++ a :: after ∧ ∀ b ∈ hiders before, b.hides a = false := by
  constructor
  · intro h
    induction reports using List.reverseRecOn with
    | nil => cases h
    | append_singleton reports r ih =>
      rw [hiders_concat] at h
      have hearlier : a ∈ hiders reports →
          ∃ before after, reports ++ [r] = before ++ a :: after ∧ ∀ b ∈ hiders before, b.hides a = false := by
        intro hmem
        obtain ⟨before, after, rfl, hn⟩ := ih hmem
        exact ⟨before, after ++ [r], by rw [List.append_assoc, List.cons_append], hn⟩
      split at h
      · exact hearlier h
      · next hany =>
        rcases List.mem_append.mp h with h | h
        · exact hearlier h
        · obtain rfl := List.mem_singleton.mp h
          refine ⟨reports, [], rfl, fun b hb => ?_⟩
          by_contra hh
          exact hany (List.any_eq_true.mpr ⟨b, hb, Bool.not_eq_false _ ▸ hh⟩)
  · rintro ⟨before, after, rfl, hn⟩
    rw [hiders_split hn]
    exact mem_hidersFrom_of_mem (List.mem_append_right _ (List.mem_singleton.mpr rfl)) after

/-- What hides a report that nothing before it hides is made after it. -/
theorem mem_after_of_hides (hn : ∀ b ∈ hiders before, b.hides a = false) (hb : b ∈ hiders (before ++ a :: after))
    (hh : b.hides a = true) : b ∈ after := by
  rw [hiders_split hn] at hb
  rcases mem_of_mem_hidersFrom hb with hb | hb
  · rcases List.mem_append.mp hb with hb | hb
    · rw [hn b hb] at hh
      cases hh
    · rw [List.mem_singleton.mp hb, hides_self] at hh
      cases hh
  · exact hb

/-! ## What is not shown -/

/-- A report that is not shown is hidden by one that hides others. -/
theorem exists_hider (hd : d ∈ reports) (h : d ∉ shown reports) : ∃ a ∈ hiders reports, a.hides d = true := by
  by_contra hnone
  push Not at hnone
  exact h (mem_shown.mpr ⟨hd, fun a ha => Bool.not_eq_true _ ▸ hnone a ha⟩)

/-- A report that another hides comes after it: it starts later, or in the same place and is of a kind that comes later there. -/
theorem errorPlace_lt_of_hides (h : a.hides d = true) : a.errorPlace < d.errorPlace := by
  refine Prod.Lex.toLex_lt_toLex.mpr ?_
  by_cases hs : a.span.start = d.span.start
  · rw [hides_of_start_eq hs, decide_eq_true_eq] at h
    exact .inr ⟨hs, h⟩
  · exact .inl (Nat.lt_of_le_of_ne (start_le_of_hides h) hs)

/-- From a report that is shown a chain of reports, each of which hides the next, leads to each one that is not. -/
theorem exists_chain (hd : d ∈ reports) (h : d ∉ shown reports) :
    ∃ a ∈ shown reports, Relation.TransGen (fun x y => x ∈ reports ∧ x.hides y = true) a d := by
  -- By induction on the place of the report; what hides it comes before it.
  induction hp : d.errorPlace using WellFoundedLT.induction generalizing d with
  | ind place ih =>
    subst hp
    obtain ⟨a, ha, hh⟩ := exists_hider hd h
    have hmem := mem_of_mem_hiders ha
    by_cases hshown : a ∈ shown reports
    · exact ⟨a, hshown, .single ⟨hmem, hh⟩⟩
    · obtain ⟨first, hfirst, hchain⟩ := ih a.errorPlace (errorPlace_lt_of_hides hh) hmem hshown rfl
      exact ⟨first, hfirst, hchain.tail ⟨hmem, hh⟩⟩

/-- A report that is not shown is hidden by one that nothing made before it hides, and that one is shown, or hidden by one made later. -/
theorem exists_cover (hd : d ∈ reports) (h : d ∉ shown reports) :
    ∃ before a after, reports = before ++ a :: after ∧ a.hides d = true ∧ (∀ b ∈ hiders before, b.hides a = false) ∧
      (a ∈ shown reports ∨ ∃ b ∈ after, b ∈ hiders reports ∧ b.hides a = true) := by
  obtain ⟨a, ha, hh⟩ := exists_hider hd h
  obtain ⟨before, after, rfl, hn⟩ := mem_hiders_iff.mp ha
  refine ⟨before, a, after, rfl, hh, hn, ?_⟩
  by_cases hshown : a ∈ shown (before ++ a :: after)
  · exact .inl hshown
  · obtain ⟨b, hb, hba⟩ := exists_hider (mem_of_mem_hiders ha) hshown
    exact .inr ⟨b, mem_after_of_hides hn hb hba, hb, hba⟩

/-- Whatever reports are made, in whatever order: a report is not shown just if it is hidden by one that is not hidden itself by any that
was made before it and hides others; from a report that is shown a chain of reports, each of which hides the next, leads to it; and it is
hidden by one that is shown, unless some report that hides it is hidden in turn by one that was made after that. -/
theorem dropped_covered (reports : List Diagnostic) :
    (∀ d ∈ reports, d ∉ shown reports ↔
      ∃ before a after, reports = before ++ a :: after ∧ a.hides d = true ∧ ∀ b ∈ hiders before, b.hides a = false) ∧
      (∀ d ∈ reports, d ∉ shown reports →
        ∃ a ∈ shown reports, Relation.TransGen (fun x y => x ∈ reports ∧ x.hides y = true) a d) ∧
        ∀ d ∈ reports, d ∉ shown reports →
          (∃ a ∈ shown reports, a.hides d = true) ∨
            ∃ before a after, reports = before ++ a :: after ∧ a.hides d = true ∧ ∃ b ∈ after, b.hides a = true := by
  refine ⟨fun d hd => ⟨fun h => ?_, ?_⟩, fun d hd h => exists_chain hd h, fun d hd h => ?_⟩
  · obtain ⟨before, a, after, hsplit, hh, hn, -⟩ := exists_cover hd h
    exact ⟨before, a, after, hsplit, hh, hn⟩
  · rintro ⟨before, a, after, hsplit, hh, hn⟩ hshown
    rw [(mem_shown.mp hshown).2 a (mem_hiders_iff.mpr ⟨before, after, hsplit, hn⟩)] at hh
    cases hh
  · obtain ⟨before, a, after, hsplit, hh, -, ha | ⟨b, hb, -, hba⟩⟩ := exists_cover hd h
    · exact .inl ⟨a, ha, hh⟩
    · exact .inr ⟨before, a, after, hsplit, hh, b, hb, hba⟩

/-- A body that is never closed hides a missing token in it, and then a missing name hides the body: the token is not shown, and the name
does not hide it. Where the name is reported first, the token is shown. -/
theorem covered_by_hidden :
    let body : Diagnostic := ⟨.unclosedBody, ⟨0, 10⟩, none, []⟩
    let token : Diagnostic := ⟨.expectedToken, ⟨5, 6⟩, none, []⟩
    let name : Diagnostic := ⟨.expectedName, ⟨0, 2⟩, none, []⟩
    shown [body, token, name] = [name] ∧ name.hides token = false ∧ shown [name, body, token] = [name, token] ∧
      ¬ ∀ reports : List Diagnostic, ∀ d ∈ reports, d ∉ shown reports → ∃ a ∈ shown reports, a.hides d = true := by
  refine ⟨by decide, by decide, by decide, fun h => ?_⟩
  obtain ⟨a, ha, hh⟩ := h [⟨.unclosedBody, ⟨0, 10⟩, none, []⟩, ⟨.expectedToken, ⟨5, 6⟩, none, []⟩, ⟨.expectedName, ⟨0, 2⟩, none, []⟩]
    ⟨.expectedToken, ⟨5, 6⟩, none, []⟩ (by decide) (by decide)
  revert a
  decide

end Diagnostic

end QueryStubs
