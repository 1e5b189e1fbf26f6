import Mathlib.Data.List.MinMax
import Mathlib.Data.Prod.Lex
import QueryStubs.Diagnostic.Suppression

/-!
# What hides what

Among reports that start at one place the kinds are in one order, `DiagnosticKind.precedence`: first those that say something required
is missing, then the structural ones, then the rest, each by priority. A report hides another that starts there just if its kind comes
first in this order (`Diagnostic.hides_of_start_eq`); elsewhere it hides what it strictly contains and outranks.

A warning hides no error (`Diagnostic.isError_of_hides`), and nothing that starts later hides anything. So of the errors that start
first, one whose kind comes first is hidden by no report at all (`Diagnostic.exists_unhidden_error`).
-/

namespace QueryStubs

namespace DiagnosticKind

/-- The place of a kind among reports that start together; 0 is the first. -/
def precedence (k : DiagnosticKind) : Nat :=
  if k.isRootCause then k.rank
  else if k.isStructural then k.rank + 11
  else k.rank + 3

/-- The order of kinds that start together puts together the two rules for such reports. -/
theorem precedence_lt (a b : DiagnosticKind) :
    ((a.isRootCause && b.isStructural) || (!(a.isStructural && b.isRootCause) && decide (a.Outranks b))) =
      decide (a.precedence < b.precedence) := by
  cases a <;> cases b <;> rfl

/-- The kinds of warnings come last in both orders. -/
theorem last_of_warning {a : DiagnosticKind} (b : DiagnosticKind) (h : a.severity ≠ .error) :
    ¬ a.precedence < b.precedence ∧ ¬ a.Outranks b := by
  have ha : a = functionOutsideModuleNamespace := by
    cases a <;> first | rfl | exact absurd rfl h
  subst ha
  cases b <;> decide

end DiagnosticKind

namespace Diagnostic

variable {a b d : Diagnostic} {found reports : List Diagnostic}

/-! ## Two reports -/

/-- Of two reports that start together, the one hides the other whose kind comes first. -/
theorem hides_of_start_eq (h : a.span.start = b.span.start) : a.hides b = decide (a.kind.precedence < b.kind.precedence) := by
  rw [hides, if_pos h, DiagnosticKind.precedence_lt]

/-- Of two reports that start apart, the one hides the other that strictly contains it and outranks it. -/
theorem hides_of_start_ne (h : a.span.start ≠ b.span.start) :
    a.hides b = (decide (a.span.StrictlyContains b.span) && decide (a.kind.Outranks b.kind)) := by
  rw [hides, if_neg h]

/-- What hides a report starts where it starts, or before. -/
theorem start_le_of_hides (h : a.hides b = true) : a.span.start ≤ b.span.start := by
  by_cases hs : a.span.start = b.span.start
  · exact Nat.le_of_eq hs
  · rw [hides_of_start_ne hs, Bool.and_eq_true, decide_eq_true_eq] at h
    exact Nat.le_of_lt h.1.1

/-- What hides an error is an error. -/
theorem isError_of_hides (h : a.hides b = true) : a.isError = true := by
  by_contra hw
  have hlast := DiagnosticKind.last_of_warning b.kind fun he : a.severity = .error => hw (decide_eq_true he)
  by_cases hs : a.span.start = b.span.start
  · rw [hides_of_start_eq hs, decide_eq_true_eq] at h
    exact hlast.1 h
  · rw [hides_of_start_ne hs, Bool.and_eq_true, decide_eq_true_eq, decide_eq_true_eq] at h
    exact hlast.2 h.2

/-! ## A list of reports -/

/-- The reports that hide others are some of the reports. -/
theorem mem_of_mem_hidersFrom (h : a ∈ hidersFrom found reports) : a ∈ found ∨ a ∈ reports := by
  induction reports generalizing found with
  | nil => exact .inl h
  | cons r reports ih =>
    unfold hidersFrom at h ih
    rw [List.foldl_cons] at h
    rcases ih h with hf | hr
    · split at hf
      · exact .inl hf
      · rcases List.mem_append.mp hf with hf | hf
        · exact .inl hf
        · exact .inr (List.mem_singleton.mp hf ▸ List.mem_cons_self ..)
    · exact .inr (List.mem_cons_of_mem _ hr)

theorem mem_of_mem_hiders (h : a ∈ hiders reports) : a ∈ reports := (mem_of_mem_hidersFrom h).resolve_left (List.not_mem_nil)

/-- A report is shown if it was made and nothing that hides others hides it. -/
theorem mem_shown : d ∈ shown reports ↔ d ∈ reports ∧ ∀ a ∈ hiders reports, a.hides d = false := by
  unfold shown
  rw [List.mem_filter, Bool.not_eq_true', List.any_eq_false]
  simp only [Bool.not_eq_true]

/-- The place of an error among the errors: where it starts, and then its kind. -/
def errorPlace (d : Diagnostic) : Nat ×ₗ Nat := toLex (d.span.start, d.kind.precedence)

/-- An error that comes first is hidden by nothing: what hid it would be an error that comes before it. -/
theorem not_hides_of_first (hfirst : ∀ e ∈ reports, e.isError = true → d.errorPlace ≤ e.errorPlace) (ha : a ∈ reports) :
    a.hides d = false := by
  rw [← Bool.not_eq_true]
  intro hh
  have hle := Prod.Lex.toLex_le_toLex.mp (hfirst a ha (isError_of_hides hh))
  have hstart := start_le_of_hides hh
  rcases hle with hlt | ⟨heq, hle⟩
  · exact absurd hstart (Nat.not_le_of_lt hlt)
  · rw [hides_of_start_eq heq.symm, decide_eq_true_eq] at hh
    exact absurd hh (Nat.not_lt_of_le hle)

/-- If there is an error at all, there is one that starts first of all errors and is hidden by nothing. -/
theorem exists_unhidden_error (h : ∃ e ∈ reports, e.isError = true) :
    ∃ d ∈ reports, d.isError = true ∧ (∀ e ∈ reports, e.isError = true → d.span.start ≤ e.span.start) ∧
      ∀ a ∈ reports, a.hides d = false := by
  obtain ⟨e, he, hee⟩ := h
  have hne : reports.filter (·.isError) ≠ [] := List.ne_nil_of_mem (List.mem_filter.mpr ⟨he, hee⟩)
  obtain ⟨d, hd⟩ := Option.ne_none_iff_exists'.mp (mt List.argmin_eq_none.mp hne : List.argmin errorPlace _ ≠ none)
  obtain ⟨hmem, hde⟩ := List.mem_filter.mp (List.argmin_mem hd)
  have hfirst : ∀ e ∈ reports, e.isError = true → d.errorPlace ≤ e.errorPlace := fun e he hee =>
    List.le_of_mem_argmin (List.mem_filter.mpr ⟨he, hee⟩) hd
  refine ⟨d, hmem, hde, fun e he hee => ?_, fun a ha => not_hides_of_first hfirst ha⟩
  rcases Prod.Lex.toLex_le_toLex.mp (hfirst e he hee) with hlt | ⟨heq, -⟩
  · exact Nat.le_of_lt hlt
  · exact Nat.le_of_eq heq

/-! ## The report that starts first -/

/-- Only among no reports there is none that starts first. -/
theorem earliest?_eq_none : earliest? reports = none ↔ reports = [] := by
  cases reports with
  | nil => exact ⟨fun _ => rfl, fun _ => rfl⟩
  | cons d ds =>
    refine ⟨fun h => ?_, fun h => nomatch h⟩
    unfold earliest? at h
    split at h
    · cases h
    · split at h <;> cases h

/-- The report that starts first is one of the reports, and none of them starts before it. -/
theorem earliest?_spec (h : earliest? reports = some d) : d ∈ reports ∧ ∀ e ∈ reports, d.span.start ≤ e.span.start := by
  induction reports generalizing d with
  | nil => cases h
  | cons r reports ih =>
    unfold earliest? at h
    cases hr : earliest? reports with
    | none =>
      rw [hr] at h
      cases h
      rw [earliest?_eq_none.mp hr]
      exact ⟨List.mem_singleton.mpr rfl, fun e he => by rw [List.mem_singleton.mp he]⟩
    | some e =>
      simp only [hr] at h
      obtain ⟨hmem, hle⟩ := ih hr
      by_cases hre : r.span.start ≤ e.span.start
      · rw [if_pos hre] at h
        cases h
        exact ⟨List.mem_cons_self .., List.forall_mem_cons.mpr ⟨Nat.le_refl _, fun x hx => Nat.le_trans hre (hle x hx)⟩⟩
      · rw [if_neg hre] at h
        cases h
        exact ⟨List.mem_cons_of_mem _ hmem, List.forall_mem_cons.mpr ⟨Nat.le_of_not_le hre, hle⟩⟩

/-- There is a first error to show just if there is an error. -/
theorem firstError?_isSome : (firstError? reports).isSome = true ↔ ∃ e ∈ reports, e.isError = true := by
  rw [Option.isSome_iff_ne_none, firstError?, ne_eq, earliest?_eq_none, List.filter_eq_nil_iff]
  constructor
  · intro h
    push Not at h
    obtain ⟨e, he, hee⟩ := h
    exact ⟨e, (mem_shown.mp he).1, hee⟩
  · rintro h hnone
    obtain ⟨d, hd, hde, -, hn⟩ := exists_unhidden_error h
    exact hnone d (mem_shown.mpr ⟨hd, fun a ha => hn a (mem_of_mem_hiders ha)⟩) hde

/-- The first error that is shown is an error that was made, and no error that was made starts before it, shown or not. -/
theorem firstError?_spec (h : firstError? reports = some d) :
    d ∈ reports ∧ d.isError = true ∧ ∀ e ∈ reports, e.isError = true → d.span.start ≤ e.span.start := by
  obtain ⟨hmem, hle⟩ := earliest?_spec h
  obtain ⟨hs, hde⟩ := List.mem_filter.mp hmem
  have hd := (mem_shown.mp hs).1
  obtain ⟨f, hf, hfe, hfirst, hn⟩ := exists_unhidden_error ⟨d, hd, hde⟩
  have hshown : f ∈ (shown reports).filter isError :=
    List.mem_filter.mpr ⟨mem_shown.mpr ⟨hf, fun a ha => hn a (mem_of_mem_hiders ha)⟩, hfe⟩
  exact ⟨hd, hde, fun e he hee => Nat.le_trans (hle f hshown) (hfirst e he hee)⟩

end Diagnostic

end QueryStubs
