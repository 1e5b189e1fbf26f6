import Mathlib.Data.List.Nodup
import QueryStubs.Proofs.Reports.Account

/-!
# What holds of all reports made so far

No report is about nothing, but at the end of the source; none is about what is behind the next lexeme; and no two of the same kind start at
the same place. These and some more are what every account keeps (`Account.Steady`), whether lexemes are taken (`Account.Steady.advance`) or
reports are made (`Account.Steady.tell`).

The guard against a second report at one place only looks at the place of the last report. It does its work where it lets through only what
is reported behind everything that was (`Account.Guarded`), and where it stops a report, there has to be an error at that place
(`Account.Heard`). Both hold of every account that such moves lead to (`Told.sound`), but not of one after a report about the order of
declarations, which counts as made at a place that was passed. There they hold again once a lexeme is taken (`Account.Steady.sound_advance`).
-/

namespace QueryStubs

/-- What reports of one source are told apart by: where they start, and their kind. -/
def Diagnostic.key (r : Diagnostic) : Nat × DiagnosticKind := (r.span.start, r.kind)

namespace Grammar

namespace Account

/-- What holds of all reports that were made so far. -/
structure Steady (a : Account) : Prop where
  ordered : a.Ordered
  /-- Only at the end of the source a report is about nothing. -/
  filled : ∀ r ∈ a.reports, r.span.start < r.span.stop ∨ r.span = .empty a.limit
  /-- A report is about what comes next, or about what is behind that. -/
  behind : ∀ r ∈ a.reports, r.span = a.next ∨ r.span.stop ≤ a.next.start
  last : ∀ place, a.lastReport = some place → place ≤ a.next.start
  distinct : (a.reports.map Diagnostic.key).Nodup
  /-- Once a bracket is reported, nothing is left. -/
  unclosed : ∀ r ∈ a.reports, r.kind.isStructural = true → a.ahead = []

/-- A report counts only behind all that were made. -/
def Guarded (a : Account) : Prop := a.IsOpen → ∀ r ∈ a.reports, r.span.start < a.next.start ∧ r.kind.isStructural = false

/-- Where no report counts at the next lexeme, an error was reported there. -/
def Heard (a : Account) : Prop := ¬ a.IsOpen → a.ahead ≠ [] → ∃ r ∈ a.reports, r.isError = true ∧ r.span.start = a.next.start

variable {a : Account} {r : Diagnostic} {place : Nat}

namespace Steady

/-- No report starts behind what comes next. -/
theorem start_le (h : a.Steady) (hr : r ∈ a.reports) : r.span.start ≤ a.next.start := by
  rcases h.behind r hr with hs | hs
  · exact Nat.le_of_eq (congrArg Span.start hs)
  · rcases h.filled r hr with hf | hf
    · exact Nat.le_trans (Nat.le_of_lt hf) hs
    · rw [hf] at hs ⊢
      exact hs

/-- Where a lexeme comes next, every report starts before the end of it. -/
theorem start_lt (h : a.Steady) (hne : a.ahead ≠ []) (hr : r ∈ a.reports) : r.span.start < a.next.stop :=
  Nat.lt_of_le_of_lt (h.start_le hr) (h.ordered.next_lt hne)

/-- All this stays so behind the next lexeme. -/
theorem advance (h : a.Steady) : a.advance.Steady := by
  by_cases hne : a.ahead = []
  · rw [advance_of_nil hne]
    exact h
  obtain ⟨hordered, hle⟩ := h.ordered.advance
  have hlt := Nat.lt_of_lt_of_le (h.ordered.next_lt hne) (hle hne)
  refine ⟨hordered, ?_, ?_, ?_, ?_, ?_⟩
  · rw [reports_advance, limit_advance]
    exact h.filled
  · rw [reports_advance]
    intro r hr
    refine .inr (Nat.le_trans ?_ (hle hne))
    rcases h.behind r hr with hs | hs
    · exact Nat.le_of_eq (congrArg Span.stop hs)
    · exact Nat.le_trans hs h.ordered.next.2.1
  · rw [lastReport_advance]
    exact fun place hp => Nat.le_trans (h.last place hp) (Nat.le_of_lt hlt)
  · rw [reports_advance]
    exact h.distinct
  · rw [reports_advance]
    exact fun r hr hs => absurd (h.unclosed r hr hs) hne

/-- It stays so after a report of a kind that was not made where the report starts. -/
theorem tell (h : a.Steady) (hfilled : r.span.start < r.span.stop ∨ r.span = .empty a.limit)
    (hbehind : r.span = a.next ∨ r.span.stop ≤ a.next.start) (hplace : place ≤ a.next.start) (hnew : ∀ x ∈ a.reports, x.key ≠ r.key)
    (hunclosed : r.kind.isStructural = true → a.ahead = []) : (a.tell place r).Steady where
  ordered := h.ordered
  filled := List.forall_mem_append.mpr ⟨h.filled, List.forall_mem_singleton.mpr hfilled⟩
  behind := List.forall_mem_append.mpr ⟨h.behind, List.forall_mem_singleton.mpr hbehind⟩
  last p hp := by
    obtain rfl : place = p := Option.some.inj hp
    exact hplace
  distinct := by
    have hreports : (a.tell place r).reports = a.reports ++ [r] := rfl
    rw [hreports, List.map_append, List.nodup_append]
    refine ⟨h.distinct, List.nodup_singleton _, fun k hk k' hk' => ?_⟩
    obtain ⟨x, hx, rfl⟩ := List.mem_map.mp hk
    rw [List.mem_singleton.mp hk']
    exact hnew x hx
  unclosed := List.forall_mem_append.mpr ⟨h.unclosed, List.forall_mem_singleton.mpr hunclosed⟩

end Steady

/-- An account at which the guard does its work. -/
structure Sound (a : Account) : Prop where
  steady : a.Steady
  guarded : a.Guarded
  heard : a.Heard

/-- Where nothing was reported yet, the guard does its work. -/
theorem Ordered.sound (h : a.Ordered) (hnone : a.reports = []) (hlast : a.lastReport = none) : a.Sound := by
  have hempty : ∀ {P : Diagnostic → Prop}, ∀ r ∈ a.reports, P r := hnone ▸ List.forall_mem_nil _
  refine ⟨⟨h, hempty, hempty, fun place hp => ?_, ?_, hempty⟩, fun _ => hempty, fun hn => ?_⟩
  · exact nomatch hlast.symm.trans hp
  · rw [hnone]
    exact List.nodup_nil
  · exact absurd (fun hl => nomatch hlast.symm.trans hl) hn

/-- Behind a lexeme the guard does its work, whatever was reported before: all reports start before what comes next. -/
theorem Steady.sound_advance (h : a.Steady) (hne : a.ahead ≠ []) :
    a.advance.Sound ∧ ∀ r ∈ a.advance.reports, r.span.start < a.advance.next.start ∧ r.kind.isStructural = false := by
  have hle := h.ordered.advance.2 hne
  have hall : ∀ r ∈ a.advance.reports, r.span.start < a.advance.next.start ∧ r.kind.isStructural = false := by
    rw [reports_advance]
    exact fun r hr => ⟨Nat.lt_of_lt_of_le (h.start_lt hne hr) hle, Bool.not_eq_true _ ▸ fun hs => hne (h.unclosed r hr hs)⟩
  have hopen : a.advance.IsOpen := by
    rw [IsOpen, lastReport_advance]
    intro hlast
    have hlt := Nat.lt_of_lt_of_le (h.ordered.next_lt hne) hle
    exact absurd (h.last _ hlast) (Nat.not_le_of_lt hlt)
  exact ⟨⟨h.advance, fun _ => hall, fun hn => absurd hopen hn⟩, hall⟩

/-- A report right where all reports before it are behind keeps the account steady. -/
theorem Sound.tellNext (h : a.Sound) (ho : a.IsOpen)
    (hspan : r.span = a.next ∨ a.ahead = [] ∧ r.span.start < r.span.stop ∧ r.span.stop = a.limit)
    (hkind : r.kind.isStructural = true ↔ r.span ≠ a.next) : (a.tellNext r).Steady := by
  have hreports := h.guarded ho
  have hordered := h.steady.ordered
  rcases hspan with hs | ⟨hn, hlt, hstop⟩
  · refine h.steady.tell ?_ (.inl hs) (Nat.le_refl _) (fun x hx hk => ?_) fun hk => absurd hs (hkind.mp hk)
    · by_cases hne : a.ahead = []
      · exact .inr (hs.trans (next_of_nil hne))
      · exact .inl (hs ▸ hordered.next_lt hne)
    · have hstart : x.span.start = a.next.start := (congrArg Prod.fst hk).trans (congrArg Span.start hs)
      exact absurd hstart (Nat.ne_of_lt (hreports x hx).1)
  · have hnext := next_of_nil hn
    have hstructural : r.kind.isStructural = true := hkind.mpr fun hs => by
      rw [hs, hnext] at hlt
      exact Nat.lt_irrefl _ hlt
    refine h.steady.tell (.inl hlt) (.inr ?_) (Nat.le_refl _) (fun x hx hk => ?_) fun _ => hn
    · exact Nat.le_of_eq (hstop.trans (congrArg Span.start hnext).symm)
    · have hsame : x.kind = r.kind := congrArg Prod.snd hk
      rw [← hsame, (hreports x hx).2] at hstructural
      cases hstructural

end Account

/-- The guard goes on to do its work in every row of moves. -/
theorem Told.sound {B : TokenKind → Span → Prop} {a b : Account} (h : Told B a b) (ha : a.Sound)
    (hB : ∀ k s, B k s → s.start < a.limit) : b.Sound := by
  have hshut : ∀ {b : Account} {r : Diagnostic}, ¬ (b.tellNext r).IsOpen := fun ho => ho rfl
  induction h with
  | refl => exact ha
  | @advance b _ ih =>
    by_cases hne : b.ahead = []
    · rw [Account.advance_of_nil hne]
      exact ih
    · exact (ih.steady.sound_advance hne).1
  | @point b kind detail _ hk ho ih =>
    obtain ⟨herror, hs, -⟩ := DiagnosticKind.of_isPointed hk
    refine ⟨ih.tellNext ho (.inl rfl) (by simp [hs]), fun h => absurd h hshut, fun _ _ => ?_⟩
    exact ⟨_, List.mem_append_right _ (List.mem_singleton_self _), decide_eq_true herror, rfl⟩
  | warn detail _ hne ho ih => exact ((ih.tellNext ho (.inl rfl) (by simp [DiagnosticKind.isStructural])).sound_advance hne).1
  | @unclosed b kind bracket note opening h hk hb hn ho ih =>
    have hlt : opening.start < b.limit := h.frame.1 ▸ hB _ _ hb
    have hk := DiagnosticKind.isStructural_of_isAbout hk
    have hne : (⟨opening.start, b.limit⟩ : Span) ≠ b.next := by
      rw [Account.next_of_nil hn]
      intro he
      exact Nat.ne_of_lt hlt (congrArg Span.start he)
    refine ⟨ih.tellNext ho (.inr ⟨hn, hlt, rfl⟩) (by simp [hk, hne]), fun h => absurd h hshut, fun _ h => absurd hn h⟩

end Grammar

end QueryStubs
