import Mathlib
import QueryStubs.Proofs.Respaced.Shown
import QueryStubs.Proofs.Suppression.First
import QueryStubs.Stub.Generate

/-!
# Trivia carry no meaning

Blanks, line ends and comments can be put in or left out anywhere between two tokens but beside a colon: the same is reported of the same
tokens, and the same stubs are written (`Respaced.irrelevant`). There is one thing that they change. Whether a report at the very end of the
source is shown can depend on whether trivia follow the last token, because the last token reaches to the end only if none do
(`Respaced.shown_at_end`).
-/

namespace QueryStubs

/-! ## Stubs -/

/-- A group of functions without their ranges. -/
def NamespaceGroup.withoutSpans (g : NamespaceGroup) : NamespaceGroup := { g with functions := g.functions.map FunctionDecl.withoutSpan }

/-- Functions are grouped wherever they stand. -/
theorem NamespaceGroup.add_withoutSpan (f : FunctionDecl) (gs : List NamespaceGroup) :
    add f.withoutSpan (gs.map withoutSpans) = (add f gs).map withoutSpans := by
  induction gs with
  | nil => rfl
  | cons g gs ih =>
    rw [List.map_cons, add, add]
    by_cases hq : g.qualifier = f.name.qualifierText
    · have hq' : g.withoutSpans.qualifier = f.withoutSpan.name.qualifierText := hq
      rw [if_pos hq, if_pos hq']
      simp [withoutSpans]
    · have hq' : g.withoutSpans.qualifier ≠ f.withoutSpan.name.qualifierText := hq
      rw [if_neg hq, if_neg hq', ih, List.map_cons]

theorem NamespaceGroup.ofFunctions_withoutSpan (fs : List FunctionDecl) :
    ofFunctions (fs.map FunctionDecl.withoutSpan) = (ofFunctions fs).map withoutSpans := by
  have hfold : ∀ gs, (fs.map FunctionDecl.withoutSpan).foldl (fun gs f => add f gs) (gs.map withoutSpans) =
      (fs.foldl (fun gs f => add f gs) gs).map withoutSpans := by
    induction fs with
    | nil => exact fun _ => rfl
    | cons f fs ih =>
      intro gs
      rw [List.map_cons, List.foldl_cons, List.foldl_cons, add_withoutSpan, ih]
  exact hfold []

/-- The stub of a function does not depend on its place. -/
theorem Stub.mapM_withoutSpan (c : Config) (fs : List FunctionDecl) :
    (fs.map FunctionDecl.withoutSpan).mapM (ofFunction c) = fs.mapM (ofFunction c) := by
  induction fs with
  | nil => rfl
  | cons f fs ih => rw [List.map_cons, List.mapM_cons, List.mapM_cons, ih]; rfl

theorem containersOf_withoutSpans (c : Config) (names : List String) (gs : List NamespaceGroup) :
    containersOf c names (gs.map NamespaceGroup.withoutSpans) = containersOf c names gs := by
  induction gs generalizing names with
  | nil => rfl
  | cons g gs ih =>
    have hname : g.withoutSpans.containerName c = g.containerName c := rfl
    have hstubs : g.withoutSpans.functions.mapM (Stub.ofFunction c) = g.functions.mapM (Stub.ofFunction c) :=
      Stub.mapM_withoutSpan c g.functions
    rw [List.map_cons, containersOf, containersOf, hname, hstubs, ih]

/-- The stubs of a module do not depend on the places of its functions. -/
theorem Module.emit_withoutSpans (c : Config) (m : Module) : m.withoutSpans.emit c = m.emit c := by
  unfold emit withoutSpans
  simp only [Stub.mapM_withoutSpan, NamespaceGroup.ofFunctions_withoutSpan, containersOf_withoutSpans]

/-- Sources without errors that hold the same module up to ranges have the same stubs, or the same fault keeps both from having any. -/
theorem generate_of_module {s t : String} (hs : (Parsed.ofSource s).hasErrors = false) (ht : (Parsed.ofSource t).hasErrors = false)
    (hm : (Parsed.ofSource s).module.withoutSpans = (Parsed.ofSource t).module.withoutSpans) (c : Config) : generate c s = generate c t := by
  have hmodule : Module.emit c (Parsed.ofSource s).module = Module.emit c (Parsed.ofSource t).module := by
    rw [← Module.emit_withoutSpans c (Parsed.ofSource s).module, hm, Module.emit_withoutSpans]
  unfold Parsed.module at hmodule
  unfold generate
  simp only [Module.parse_of_faultless hs, Module.parse_of_faultless ht, hmodule]

namespace Respaced

variable {s t : String}

/-- There is an error in both sources or in none. -/
theorem hasErrors_eq (h : Respaced s t) : (Parsed.ofSource s).hasErrors = (Parsed.ofSource t).hasErrors := by
  have hreports := h.reports
  unfold Parsed.hasErrors
  generalize (Parsed.ofSource s).reports = rs, (Parsed.ofSource t).reports = qs at hreports
  induction hreports with
  | nil => rfl
  | cons hr _ ih => rw [List.any_cons, List.any_cons, ih, Diagnostic.isError, Diagnostic.isError, Diagnostic.severity,
      Diagnostic.severity, hr.kind]

/-- If there is none, the same stubs are written, or writing them fails for the same reason. -/
theorem generate_eq (h : Respaced s t) (c : Config) {m : Module} (hm : Module.parse s = .ok m) : generate c s = generate c t := by
  have hs : (Parsed.ofSource s).hasErrors = false := by
    rw [← Bool.not_eq_true, ← Module.parse_error_iff, hm]
    exact fun ⟨_, he⟩ => nomatch he
  exact generate_of_module hs (h.hasErrors_eq ▸ hs) h.module c

/-- Trivia carry no meaning, except beside a colon and, for what is shown of the end of a source, behind its last token. -/
theorem irrelevant (h : Respaced s t) :
    List.Forall₂ (SameReport s t) (Parsed.ofSource s).reports (Parsed.ofSource t).reports ∧
      (List.Forall₂ (SameReport s t) ((Diagnostic.shown (Parsed.ofSource s).reports).filter fun r => r.span ≠ .empty s.utf8ByteSize)
          ((Diagnostic.shown (Parsed.ofSource t).reports).filter fun r => r.span ≠ .empty t.utf8ByteSize) ∧
        ((triviaAtEnd s = [] ↔ triviaAtEnd t = []) →
          List.Forall₂ (SameReport s t) (Diagnostic.shown (Parsed.ofSource s).reports) (Diagnostic.shown (Parsed.ofSource t).reports))) ∧
        (Parsed.ofSource s).module.withoutSpans = (Parsed.ofSource t).module.withoutSpans ∧
          ∀ (c : Config) (m m' : Module), Module.parse s = .ok m → Module.parse t = .ok m' → generate c s = generate c t := by
  refine ⟨h.reports.imp fun _ _ => .of_reported, ⟨h.shown_before_end, h.shown_alike⟩, h.module, fun c m _ hm _ => ?_⟩
  exact h.generate_eq c hm

set_option maxRecDepth 10000 in
theorem irrelevant_comment :
    Respaced "declare function p:f() external" "declare function (: no semicolon :)\n p:f( ) external" ∧
      List.Forall₂ (SameReport "declare function p:f() external" "declare function (: no semicolon :)\n p:f( ) external")
          (Parsed.ofSource "declare function p:f() external").reports
          (Parsed.ofSource "declare function (: no semicolon :)\n p:f( ) external").reports ∧
        (Parsed.ofSource "declare function p:f() external").module.withoutSpans =
          (Parsed.ofSource "declare function (: no semicolon :)\n p:f( ) external").module.withoutSpans := by
  have h : Respaced "declare function p:f() external" "declare function (: no semicolon :)\n p:f( ) external" :=
    .of_check (by cbv) (by cbv)
  exact ⟨h, (irrelevant h).1, (irrelevant h).2.2.1⟩

/-- Whether the report at the end is shown depends on the blank there: without it the last name reaches to the end and hides the report. -/
theorem shown_at_end :
    Respaced "declare variable declare" "declare variable declare " ∧
      ¬ List.Forall₂ (SameReport "declare variable declare" "declare variable declare ")
        (Diagnostic.shown (Parsed.ofSource "declare variable declare").reports)
        (Diagnostic.shown (Parsed.ofSource "declare variable declare ").reports) := by
  refine ⟨.of_check (by cbv) (by cbv), fun h => ?_⟩
  have hone : (Diagnostic.shown (Parsed.ofSource "declare variable declare").reports).length = 1 := by cbv
  have htwo : (Diagnostic.shown (Parsed.ofSource "declare variable declare ").reports).length = 2 := by cbv
  have hlen := h.length_eq
  omega

end Respaced

end QueryStubs
