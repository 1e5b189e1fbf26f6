import QueryStubs.Proofs.Reports.Order
import QueryStubs.Proofs.Suppression.Stable

/-!
# One report at a place, and one for each setter that comes too late

Reports of different kinds that start together hide one another in one order, so of reports that no two of one kind start together, no two that
are shown start together (`Parsed.shown_apart`). The guard against a second report at one place is not enough for that: it only looks at the
place of the last report.

Where an error starts and no report reaches over that place, an error is shown that starts there (`Diagnostic.exists_shown_at`). So what is
reported of a setter that comes behind a variable, function or option declaration is shown, be it that it is misplaced or some other fault at
the same place, and nothing else is said to be misplaced (`Parsed.misplaced_flagged`).
-/

namespace QueryStubs

/-- Kinds that come at the same place among reports that start together are the same. -/
theorem DiagnosticKind.precedence_injective {a b : DiagnosticKind} (h : a.precedence = b.precedence) : a = b := by
  cases a <;> cases b <;> first | rfl | exact absurd h (by decide)

namespace Diagnostic

variable {a b : Diagnostic} {reports : List Diagnostic} {place : Nat}

/-- Reports that are shown are of one kind if they start together. -/
theorem key_eq_of_shown (ha : a ∈ shown reports) (hb : b ∈ shown reports) (h : a.span.start = b.span.start) : a.key = b.key := by
  have hab := not_hides_of_mem_shown ha hb
  have hba := not_hides_of_mem_shown hb ha
  rw [hides_of_start_eq h, decide_eq_false_iff_not] at hab
  rw [hides_of_start_eq h.symm, decide_eq_false_iff_not] at hba
  have hkind := DiagnosticKind.precedence_injective (Nat.le_antisymm (Nat.le_of_not_lt hba) (Nat.le_of_not_lt hab))
  rw [key, key, h, hkind]

/-- If no two reports of one kind start together, no two that are shown do. -/
theorem nodup_shown (h : (reports.map key).Nodup) : ((shown reports).map (·.span.start)).Nodup := by
  have hkeys : ((shown reports).map key).Nodup := h.sublist (List.filter_sublist.map key)
  refine List.Nodup.map_on (fun a ha b hb hstart => ?_) (.of_map _ hkeys)
  exact List.inj_on_of_nodup_map hkeys ha hb (key_eq_of_shown ha hb hstart)

/-- Where no report reaches over a place, the one that comes first among those that start there is shown. -/
theorem first_shown {d : Diagnostic} (hd : d ∈ reports) (hfilled : d.span.start < d.span.stop)
    (hapart : ∀ r ∈ reports, d.span.start ≤ r.span.start ∨ r.span.stop ≤ d.span.start)
    (hfirst : ∀ r ∈ reports, r.span.start = d.span.start → d.kind.precedence ≤ r.kind.precedence) : d ∈ shown reports := by
  refine mem_shown.mpr ⟨hd, fun r hr => ?_⟩
  have hr := mem_of_mem_hiders hr
  by_contra hh
  rw [Bool.not_eq_false] at hh
  by_cases hs : r.span.start = d.span.start
  · rw [hides_of_start_eq hs, decide_eq_true_eq] at hh
    exact absurd (hfirst r hr hs) (Nat.not_le_of_lt hh)
  · -- What contains it reaches over the place.
    rw [hides_of_start_ne hs, Bool.and_eq_true, decide_eq_true_eq] at hh
    obtain ⟨⟨hlt, hle⟩, -⟩ := hh
    rcases hapart r hr with hs | hs
    · omega
    · omega

/-- Where an error starts and no report reaches over that place, an error is shown that starts there. -/
theorem exists_shown_at (h : ∃ e ∈ reports, e.isError = true ∧ e.span.start = place)
    (hapart : ∀ r ∈ reports, place ≤ r.span.start ∨ r.span.stop ≤ place)
    (hfilled : ∀ r ∈ reports, r.span.start = place → place < r.span.stop) :
    ∃ d ∈ shown reports, d.isError = true ∧ d.span.start = place := by
  obtain ⟨e, he, herror, hstart⟩ := h
  have hmem : e ∈ reports.filter (·.span.start = place) := List.mem_filter.mpr ⟨he, decide_eq_true hstart⟩
  obtain ⟨d, hd⟩ := Option.ne_none_iff_exists'.mp (mt List.argmin_eq_none.mp (List.ne_nil_of_mem hmem) :
    List.argmin (·.kind.precedence) (reports.filter (·.span.start = place)) ≠ none)
  obtain ⟨hdr, hds⟩ := List.mem_filter.mp (List.argmin_mem hd)
  obtain rfl : d.span.start = place := of_decide_eq_true hds
  have hfirst : ∀ r ∈ reports, r.span.start = d.span.start → d.kind.precedence ≤ r.kind.precedence := fun r hr hrs =>
    List.le_of_mem_argmin (f := fun r : Diagnostic => r.kind.precedence) (List.mem_filter.mpr ⟨hr, decide_eq_true hrs⟩) hd
  refine ⟨d, first_shown hdr (hfilled d hdr rfl) hapart hfirst, ?_, rfl⟩
  -- A warning would come behind the error.
  by_contra hwarning
  have hlast := (DiagnosticKind.last_of_warning e.kind fun hs : d.severity = .error => hwarning (decide_eq_true hs)).1
  have hkind := DiagnosticKind.precedence_injective (Nat.le_antisymm (hfirst e he hstart) (Nat.le_of_not_lt hlast))
  rw [isError, severity, hkind] at hwarning
  exact hwarning herror

end Diagnostic

namespace Parsed

open Grammar

/-- Of the reports of a source that are shown no two start at the same place. -/
theorem shown_apart (source : String) : ((Diagnostic.shown (ofSource source).reports).map (·.span.start)).Nodup := by
  obtain ⟨prolog, h⟩ := reported source
  exact Diagnostic.nodup_shown h.steady.distinct

-- Two reports that start together, of which one is shown.
example :
    let reports := (ofSource "declare function f() external declare namespace a = ;").reports
    reports.map Diagnostic.key = [(30, .expectedToken), (52, .expectedStringLiteral), (30, .misplacedDeclaration)] ∧
      (Diagnostic.shown reports).map Diagnostic.key = [(30, .expectedToken), (52, .expectedStringLiteral)] := by
  cbv

/-- Setters that come too late are flagged, and nothing else is. Where a namespace declaration, import or setter comes behind a variable,
function or option declaration of the prolog, an error starts where it does, also among the reports that are shown. What is reported as
misplaced has the range of such a setter without the trivia at its ends, and it is related to the range of the first declaration that setters
come before. So in a source without errors all setters come first. -/
theorem misplaced_flagged (source : String) : ∃ prolog, (ofSource source).root.prolog? = some prolog ∧
    (∀ before n after, prolog.nodes = before ++ n :: after → n.kind.isSetter = true → (∃ m ∈ before, m.kind.isBodyDecl = true) →
      (∃ r ∈ (ofSource source).reports, r.isError = true ∧ r.span.start = n.start) ∧
        ∃ r ∈ Diagnostic.shown (ofSource source).reports, r.isError = true ∧ r.span.start = n.start) ∧
    (∀ r ∈ (ofSource source).reports, r.kind = .misplacedDeclaration →
      ∃ before n after first, prolog.nodes = before ++ n :: after ∧ n.kind.isSetter = true ∧ (∃ m ∈ before, m.kind.isBodyDecl = true) ∧
        r.span = n.core ∧ prolog.nodes.find? (·.kind.isBodyDecl) = some first ∧
          r.related = [⟨"first function, variable or option declaration", first.span⟩]) ∧
    ((ofSource source).hasErrors = false →
      ∀ before n after, prolog.nodes = before ++ n :: after → n.kind.isSetter = true → ∀ m ∈ before, m.kind.isBodyDecl = false) := by
  obtain ⟨prolog, h⟩ := reported source
  have hflagged : ∀ before n after, prolog.nodes = before ++ n :: after → n.kind.isSetter = true → (∃ m ∈ before, m.kind.isBodyDecl = true) →
      (∃ r ∈ (ofSource source).reports, r.isError = true ∧ r.span.start = n.start) ∧
        ∃ r ∈ Diagnostic.shown (ofSource source).reports, r.isError = true ∧ r.span.start = n.start := by
    intro before n after hrow hsetter hbody
    have hn : n ∈ prolog.nodes := by simp [hrow]
    obtain ⟨hstart, hcore⟩ := h.decls n hn
    obtain ⟨hlt, hle⟩ := hcore.bounds (Token.size_pos_of_scan source.toList)
    have hfound := h.flagged.found before n after hrow hsetter hbody
    rw [hstart] at hfound
    refine ⟨hfound, Diagnostic.exists_shown_at hfound (hstart ▸ h.flagged.apart n hn) fun r hr hs => ?_⟩
    rcases h.steady.filled r hr with hfilled | hempty
    · exact hs ▸ hfilled
    · have hlimit : (Cursor.done source).account.limit = source.utf8ByteSize := (whole_run source).1.frame.2
      rw [hempty, hlimit] at hs
      rw [Token.sizeOf_eq, Token.textOf_ofSource] at hle
      exact absurd (Nat.lt_of_lt_of_le (hstart ▸ hlt) hle) (Nat.not_lt_of_le (Nat.le_of_eq hs))
  refine ⟨prolog, h.prolog_eq, hflagged, fun r hr hk => ?_, fun hn before n after hrow hsetter m hm => ?_⟩
  · obtain ⟨before, n, after, first, hrow, hsetter, hfirst, rfl⟩ := h.flagged.meant r hr hk
    have hbefore : first ∈ before := List.mem_of_find?_eq_some hfirst
    have hbody : first.kind.isBodyDecl = true := List.find?_some (p := fun m : Node => m.kind.isBodyDecl) hfirst
    have hcore : first.core = first.span := h.whole first (hrow ▸ List.mem_append_left _ hbefore) hbody
    refine ⟨before, n, after, first, hrow, hsetter, ⟨first, hbefore, hbody⟩, rfl, ?_, by rw [Diagnostic.misplaced, hcore]⟩
    rw [hrow, List.find?_append, hfirst, Option.some_or]
  · by_contra hbody
    obtain ⟨⟨r, hr, herror, -⟩, -⟩ := hflagged before n after hrow hsetter ⟨m, hm, Bool.not_eq_false _ ▸ hbody⟩
    exact absurd herror (List.any_eq_false.mp hn r hr)

end Parsed

end QueryStubs
