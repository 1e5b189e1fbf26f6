import QueryStubs.Command.Run
import QueryStubs.Proofs.Suppression.Hiding

/-!
# The first error

Hiding reports never hides that a module is broken, nor where it first breaks (`Diagnostic.first_error_kept`). So reading a module by
`Module.parse`, which looks at the reports that are shown, and running a command on it, which looks at all of them, refuse the same
sources.
-/

namespace QueryStubs

namespace Module

variable {source : String}

/-- A source of which a first error is shown is refused for that error. -/
theorem parse_of_firstError? {d : Diagnostic} (h : Diagnostic.firstError? (Parsed.ofSource source).reports = some d) :
    parse source =
      .error { position := .ofOffset source d.span.start, expected := d.message, reports := (Parsed.ofSource source).reports } := by
  unfold parse parseReporting
  simp only [h]
  rfl

/-- A source without an error gives the module that its tree holds. -/
theorem parse_of_faultless (h : (Parsed.ofSource source).hasErrors = false) :
    parse source = .ok (ofTree (Parsed.ofSource source).tree) := by
  have hnone : Diagnostic.firstError? (Parsed.ofSource source).reports = none := by
    rw [← Option.isSome_eq_false_iff.trans Option.isNone_iff_eq_none, ← Bool.not_eq_true, Diagnostic.firstError?_isSome,
      ← List.any_eq_true, Bool.not_eq_true]
    exact h
  unfold parse parseReporting
  simp only [hnone]
  rfl

/-- A source is refused just if there is an error among its reports. -/
theorem parse_error_iff (source : String) : (∃ e, parse source = .error e) ↔ (Parsed.ofSource source).hasErrors = true := by
  constructor
  · rintro ⟨e, he⟩
    by_contra hn
    rw [parse_of_faultless (Bool.not_eq_true _ ▸ hn)] at he
    cases he
  · intro h
    obtain ⟨d, hd⟩ := Option.isSome_iff_exists.mp (Diagnostic.firstError?_isSome.mpr (List.any_eq_true.mp h))
    exact ⟨_, parse_of_firstError? hd⟩

/-- A source gives a module just if there is no error among its reports, and then the one that its tree holds. -/
theorem parse_ok_iff {m : Module} : parse source = .ok m ↔ (Parsed.ofSource source).hasErrors = false ∧ m = (Parsed.ofSource source).module := by
  constructor
  · intro h
    have hn : (Parsed.ofSource source).hasErrors = false := by
      rw [← Bool.not_eq_true, ← parse_error_iff, h]
      exact fun ⟨_, he⟩ => nomatch he
    refine ⟨hn, ?_⟩
    rw [parse_of_faultless hn] at h
    cases h
    rfl
  · rintro ⟨hn, rfl⟩
    exact parse_of_faultless hn

/-- The error that a source is refused for is the first error that is shown. -/
theorem firstError?_of_parse {e : SyntaxError} (h : parse source = .error e) :
    ∃ d, Diagnostic.firstError? (Parsed.ofSource source).reports = some d ∧
      e.position = .ofOffset source d.span.start ∧ e.expected = d.message := by
  have hsome := Diagnostic.firstError?_isSome.mpr (List.any_eq_true.mp ((parse_error_iff source).mp ⟨e, h⟩))
  obtain ⟨d, hd⟩ := Option.isSome_iff_exists.mp hsome
  rw [parse_of_firstError? hd] at h
  cases h
  exact ⟨d, hd, rfl, rfl⟩

end Module

namespace Command

variable {s : Surroundings} {c : Common} {source : Source}

/-- Checking the syntax of a module fails just if there is an error among its reports. -/
theorem check_exit_iff (o : StubOptions) (h : c.input.load s = .ok source) :
    (check s c o false true).ending = .exit 1 ↔ (Parsed.ofSource source.text).hasErrors = true := by
  unfold check
  simp only [h, refused, Bool.false_and, Bool.or_false]
  split
  · next he => simp [he]
  · next he => simp [he]

/-- So does showing its structured form. -/
theorem ast_exit_iff (h : c.input.load s = .ok source) :
    (ast s c .json).ending = .exit 1 ↔ (Parsed.ofSource source.text).hasErrors = true := by
  unfold ast
  simp only [h]
  split
  · next he => simp [he]
  · next he => simp [he]

/-- Where there is an error, writing stubs fails with nothing printed, whatever else there is to fail. -/
theorem gen_exit_of_error (o : StubOptions) (output : Option String) (h : c.input.load s = .ok source)
    (he : (Parsed.ofSource source.text).hasErrors = true) :
    (gen s c o false output).ending = .exit 1 ∧ (gen s c o false output).stdout = "" := by
  unfold gen
  simp only [h]
  cases o.table s with
  | error message => exact ⟨rfl, rfl⟩
  | ok types => simp [refused, he]

end Command

namespace Diagnostic

/-- Whatever reports are made, in whatever order: a first error is shown just if an error was made, and it starts where the first of all
errors that were made starts. So a module is refused just where commands on its text are, and for an error that starts there. -/
theorem first_error_kept :
    (∀ reports : List Diagnostic,
      ((firstError? reports).isSome = true ↔ reports.any (·.isError) = true) ∧
        ∀ d, firstError? reports = some d →
          d ∈ reports ∧ d.isError = true ∧ ∀ e ∈ reports, e.isError = true → d.span.start ≤ e.span.start) ∧
      ∀ (s : Command.Surroundings) (c : Command.Common) (o : Command.StubOptions) (output : Option String) (source : Command.Source),
        c.input.load s = .ok source →
          ((Command.check s c o false true).ending = .exit 1 ↔ ∃ e, Module.parse source.text = .error e) ∧
            ((Command.ast s c .json).ending = .exit 1 ↔ ∃ e, Module.parse source.text = .error e) ∧
              ∀ e, Module.parse source.text = .error e →
                ((Command.gen s c o false output).ending = .exit 1 ∧ (Command.gen s c o false output).stdout = "") ∧
                  ∃ d ∈ (Parsed.ofSource source.text).reports,
                    d.isError = true ∧ e.position = .ofOffset source.text d.span.start ∧ e.expected = d.message ∧
                      ∀ r ∈ (Parsed.ofSource source.text).reports, r.isError = true → d.span.start ≤ r.span.start := by
  refine ⟨fun reports => ⟨?_, fun d hd => firstError?_spec hd⟩, fun s c o output source h => ⟨?_, ?_, fun e he => ⟨?_, ?_⟩⟩⟩
  · rw [firstError?_isSome, List.any_eq_true]
  · rw [Command.check_exit_iff o h, Module.parse_error_iff]
  · rw [Command.ast_exit_iff h, Module.parse_error_iff]
  · exact Command.gen_exit_of_error o output h ((Module.parse_error_iff source.text).mp ⟨e, he⟩)
  · obtain ⟨d, hd, hposition, hexpected⟩ := Module.firstError?_of_parse he
    obtain ⟨hmem, herror, hfirst⟩ := firstError?_spec hd
    exact ⟨d, hmem, herror, hposition, hexpected, hfirst⟩

end Diagnostic

end QueryStubs
