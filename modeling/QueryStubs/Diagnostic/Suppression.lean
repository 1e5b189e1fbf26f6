import QueryStubs.Diagnostic

/-!
# Which reports are shown

One fault often causes more than one report. A report hides another if it strictly contains it and outranks it, or if both start
at the same place and it is a root cause while the other is structural, or if both start at the same place and it outranks the
other, unless it is structural and the other a root cause.

Reports are visited in the order in which they were made, and one that an earlier visited report hides does not hide any other.
-/

namespace QueryStubs

namespace Diagnostic

/-- Whether a report hides another. -/
def hides (a b : Diagnostic) : Bool :=
  if a.span.start = b.span.start then
    (a.kind.isRootCause && b.kind.isStructural) ||
      (!(a.kind.isStructural && b.kind.isRootCause) && decide (a.kind.Outranks b.kind))
  else
    decide (a.span.StrictlyContains b.span) && decide (a.kind.Outranks b.kind)

/-- No report hides itself. -/
theorem hides_self (a : Diagnostic) : a.hides a = false := by
  have h : decide (a.kind.Outranks a.kind) = false := decide_eq_false (Nat.lt_irrefl _)
  cases hs : a.kind.isStructural with
  | false => simp [hides, h, hs]
  | true => simp [hides, h, DiagnosticKind.isRootCause_of_isStructural hs]

/-- The reports that hide others, given those found among the reports visited before. -/
def hidersFrom (found : List Diagnostic) (reports : List Diagnostic) : List Diagnostic :=
  reports.foldl (fun found a => if found.any (·.hides a) then found else found ++ [a]) found

/-- The reports that hide others: those that none before them hides. -/
def hiders (reports : List Diagnostic) : List Diagnostic := hidersFrom [] reports

/-- The reports that are shown, in the order in which they were made. -/
def shown (reports : List Diagnostic) : List Diagnostic :=
  let found := hiders reports
  reports.filter fun b => !found.any (·.hides b)

/-- The report that starts first; of several, the one made first. -/
def earliest? : List Diagnostic → Option Diagnostic
  | [] => none
  | d :: ds =>
    match earliest? ds with
    | none => some d
    | some e => if d.span.start ≤ e.span.start then some d else some e

/-- The first error in source order among the reports that are shown. -/
def firstError? (reports : List Diagnostic) : Option Diagnostic := earliest? ((shown reports).filter isError)

end Diagnostic

end QueryStubs
