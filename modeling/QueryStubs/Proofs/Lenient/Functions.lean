import QueryStubs.Proofs.Faultless.Made
import QueryStubs.Proofs.Lenient.Types
import QueryStubs.Proofs.Twin.Module

/-!
# Function declarations in broken sources

A function declaration is read up to the first thing that is missing in it, and what it has by then stays. Its body comes last: where there
is one, everything in front of it was complete. So a declaration either has no body or starts with a whole signature (`Signed`), and behind
the signature there is nothing but a body, perhaps one that is not closed, and what was skipped up to the semicolon.
-/

namespace QueryStubs.Grammar

open QueryStubs

/-- The kinds of nodes that may follow a signature. -/
def kindsBehind : List NodeKind := [.enclosedBody, .externalBody, .error]

/-- A row without the body of a function. -/
def Bodiless (ts : List Tree) : Prop := ∀ x ∈ Tree.constructs ts, x.1 ≠ .enclosedBody ∧ x.1 ≠ .externalBody

/-- A row that has no body or starts as a form says and goes on with nothing but what may follow a signature. -/
def Signed (f : Form) (o : Outlook) (ts : List Tree) : Prop :=
  Bodiless ts ∨ ∃ us vs o', ts = us ++ vs ∧ f.Builds o us o' ∧ ∀ x ∈ Tree.constructs vs, x.1 ∈ kindsBehind

/-- The rule adds such a row. -/
def Signs (P : Outlook → Prop) (r : Rule α) (f : Form) : Prop :=
  ∀ c : Cursor, P c.outlook → ∃ ts, (r c).2.parts = c.parts ++ ts ∧ Signed f c.outlook ts

variable {P : Outlook → Prop} {f g : Form}

namespace Signs

/-- A rule that adds no body. -/
theorem of_adds {r : Rule α} (h : Adds r fun x => x.1 ≠ .enclosedBody ∧ x.1 ≠ .externalBody) : Signs P r f := by
  intro c _
  obtain ⟨ts, hts, hall⟩ := h c
  exact ⟨ts, hts, .inl hall⟩

/-- A rule that comes before the body. If its result is not good, no body follows. -/
theorem bind {Q : Outlook → Prop} {x : Rule α} {k : α → Rule β} {good : α → Bool} (hx : Yields P x good f)
    (hadds : Adds x fun x => x.1 ≠ .enclosedBody ∧ x.1 ≠ .externalBody) (hQ : ∀ o ts o', P o → f.Builds o ts o' → Q o')
    (hk : ∀ a, good a = true → Signs Q (k a) g)
    (hbad : ∀ a, good a = false → Adds (k a) fun x => x.1 ≠ .enclosedBody ∧ x.1 ≠ .externalBody) : Signs P (x >>= k) (.seq f g) := by
  intro c hp
  rw [bind_run]
  obtain ⟨ts, hts, hnone⟩ := hadds c
  have hbodiless : ∀ us, Bodiless us → Bodiless (ts ++ us) := by
    intro us hus
    rw [Bodiless, Tree.constructs_append]
    exact List.forall_mem_append.mpr ⟨hnone, hus⟩
  cases hg : good (x c).1 with
  | false =>
    obtain ⟨us, hus, hall⟩ := hbad _ hg (x c).2
    exact ⟨ts ++ us, by rw [hus, hts, List.append_assoc], .inl (hbodiless us hall)⟩
  | true =>
    obtain ⟨ts', hts', hf⟩ := hx c hp hg
    obtain rfl : ts' = ts := List.append_cancel_left (hts'.symm.trans hts)
    obtain ⟨us, hus, hsigned⟩ := hk _ hg _ (hQ _ _ _ hp hf)
    refine ⟨ts' ++ us, by rw [hus, hts, List.append_assoc], ?_⟩
    rcases hsigned with hnone | ⟨us, vs, o', rfl, hbuilds, hvs⟩
    · exact .inl (hbodiless us hnone)
    · exact .inr ⟨ts' ++ us, vs, o', (List.append_assoc ..).symm, .seq hf hbuilds, hvs⟩

/-- A rule that comes before the body and has to be complete for a body to follow. -/
theorem andThen {x y : Rule Bool} (hx : Yields P x id f) (hadds : Adds x fun x => x.1 ≠ .enclosedBody ∧ x.1 ≠ .externalBody)
    (hy : Signs (fun _ => True) y g) : Signs P (x >>= fun b => if b = true then y else pure false) (.seq f g) := by
  refine bind hx hadds (fun _ _ _ _ _ => trivial) (fun b hb => ?_) fun b hb => ?_
  · obtain rfl : b = true := hb
    exact hy
  · obtain rfl : b = false := hb
    exact .pure false

/-- Behind a signature what may follow one is added. -/
theorem thenAdds {x : Rule α} {k : α → Rule β} (hx : Signs P x f) (hk : ∀ a, Adds (k a) (·.1 = .error)) : Signs P (x >>= k) f := by
  intro c hp
  obtain ⟨ts, hts, hsigned⟩ := hx c hp
  obtain ⟨us, hus, hall⟩ := hk (x c).1 (x c).2
  refine ⟨ts ++ us, by rw [bind_run, hus, hts, List.append_assoc], ?_⟩
  rcases hsigned with hnone | ⟨ts, vs, o', rfl, hbuilds, hvs⟩
  · refine .inl ?_
    rw [Bodiless, Tree.constructs_append]
    exact List.forall_mem_append.mpr ⟨hnone, fun x hx => by simp [hall x hx]⟩
  · refine .inr ⟨ts, vs ++ us, o', List.append_assoc .., hbuilds, ?_⟩
    rw [Tree.constructs_append]
    exact List.forall_mem_append.mpr ⟨hvs, fun x hx => by simp [hall x hx, kindsBehind]⟩

/-- The last rule of a signature, and what may follow it. -/
theorem last {x y : Rule Bool} (hx : Yields P x id f) (hadds : Adds x fun x => x.1 ≠ .enclosedBody ∧ x.1 ≠ .externalBody)
    (hy : Adds y (·.1 ∈ kindsBehind)) : Signs P (x >>= fun b => if b = true then y else pure false) f := by
  have hbehind : Signs (fun _ => True) y .nothing := by
    intro c _
    obtain ⟨ts, hts, hall⟩ := hy c
    exact ⟨ts, hts, .inr ⟨[], ts, _, rfl, .nothing _, hall⟩⟩
  intro c hp
  obtain ⟨ts, hts, hnone | ⟨_, vs, o', rfl, hbuilds, hvs⟩⟩ := andThen hx hadds hbehind c hp
  · exact ⟨ts, hts, .inl hnone⟩
  · cases hbuilds with
    | seq hf hnothing =>
      cases hnothing
      exact ⟨_, hts, .inr ⟨_, vs, o', by rw [List.append_nil], hf, hvs⟩⟩

/-- Looking first changes nothing, and what was found may be counted on. -/
theorem look {x : Rule β} {A : β → Outlook → Prop} {k : β → Rule α} (hx : Keeps x A)
    (hk : ∀ a, Signs (fun o => P o ∧ A a o) (k a) f) : Signs P (x >>= k) f := by
  intro c hp
  obtain ⟨hr, ha⟩ := hx c
  have ho : (x c).2.outlook = c.outlook := congrArg Reading.outlook hr
  obtain ⟨ts, hts, hsigned⟩ := hk (x c).1 (x c).2 (ho ▸ ⟨hp, ha⟩)
  exact ⟨ts, hr ▸ hts, ho ▸ hsigned⟩

theorem ite {b : Bool} {x y : Rule α} (hx : b = true → Signs P x f) (hy : b = false → Signs P y f) :
    Signs P (if b = true then x else y) f := by
  cases b with
  | true => exact hx rfl
  | false => exact hy rfl

end Signs

/-! ## Before the name -/

/-- Several words that come next are taken as keywords. -/
theorem takeKeywords_yields (wss : List (List String)) :
    Yields (fun o => ∀ i ws, wss[i]? = some ws → ∃ w ∈ ws, o.WordAt i w) (takeKeywords wss.length) (fun _ => true) (.keywords wss) := by
  induction wss with
  | nil => exact .pure ()
  | cons ws wss ih =>
    refine .andNext (.takeKeyword fun o h => ?_) (fun o ts o' h hb i vs hv => ?_) ih
    · obtain ⟨w, hw, hword⟩ := h 0 ws rfl
      exact ⟨w, hw, Outlook.wordAt_zero.mp hword⟩
    · obtain ⟨w, hw, hword⟩ := h (i + 1) vs hv
      cases hb with
      | keyword => exact ⟨w, hw, by simpa [Outlook.WordAt] using hword⟩

theorem takeKeywords_adds {C : NodeKind × List Tree → Prop} (n : Nat) : Adds (takeKeywords n) C := by
  induction n with
  | zero => exact .pure ()
  | succ n ih => exact .bind .takeKeyword fun _ => ih

/-- A function outside the namespace of its module is reported, and nothing else is done. -/
theorem checkNamespace_yields : Yields P checkNamespace (fun _ => true) .nothing := by
  refine .look (sees_head .name) fun b => .ite (fun _ => ?_) fun _ => .pure ()
  refine .look nextSpan_looks.keeps fun span => .look upcomingPrefix_looks.keeps fun found => .look get_looks.keeps fun e =>
    .ite (fun _ c hp _ => ⟨[], ?_, ?_⟩) fun _ => .pure ()
  · change (c.addReport _ _).parts = _
    unfold Cursor.addReport
    split <;> exact (List.append_nil _).symm
  · have ho : (reportAt .functionOutsideModuleNamespace span found [] c).2.outlook = c.outlook := (addReport_frame c _ _).1
    rw [ho]
    exact .nothing _

/-- The name of a function is read whether it is reported or not. -/
theorem checkedName_yields (what : String) : Yields P (checkNamespace >>= fun _ => expectQName what) id .qname := by
  refine (Yields.andNext (Q := fun _ => True) checkNamespace_yields (fun _ _ _ _ _ => trivial) (expectQName_yields what)).conv
    fun o ts o' h => ?_
  cases h with
  | seq hnothing hname =>
    cases hnothing
    exact hname

theorem checkNamespace_adds {C : NodeKind × List Tree → Prop} : Adds checkNamespace C := by
  refine .bind (.of_keeps (sees_head .name)) fun _ => .ite ?_ (.pure ())
  exact .bind (.of_keeps nextSpan_looks.keeps) fun _ => .bind (.of_keeps upcomingPrefix_looks.keeps) fun _ =>
    .bind (.of_keeps get_looks.keeps) fun _ => .ite (.addReport fun _ => rfl) (.pure ())

/-! ## Bodies and what is skipped -/

theorem functionBody_adds {C : NodeKind × List Tree → Prop} (h : ∀ us, C (.enclosedBody, us)) (h' : ∀ us, C (.externalBody, us)) :
    Adds functionBody C := by
  refine .bind (.of_keeps (sees_head .braceOpen)) fun _ => .ite (.node .enclosedBody _ h) ?_
  refine .bind (.of_keeps (seesWord_head "external")) fun _ => .ite ?_ (.bind (.reportNext _ _) fun _ => .pure false)
  exact .bind (.node .externalBody _ h') fun _ => .pure true

/-- What is skipped is put into a node of its own. -/
theorem skipToRecovery_adds : Adds (skipUntil atRecovery) (·.1 = .error) := by
  refine .bind (.of_keeps atEnd_looks.keeps) fun _ => .ite (.pure ()) ?_
  exact .bind (.of_keeps atRecovery_looks.keeps) fun _ => .ite (.pure ()) (.node .error _ fun _ => rfl)

/-! ## A declaration -/

theorem functionTail_signs : Signs P functionTail (.seq .paramList (.optional .typeDecl)) := by
  refine .look (sees_head .parenOpen) fun _ => .ite (fun hb => ?_) fun _ => .of_adds (.bind (.reportNext _ _) fun _ => .pure false)
  refine .andThen (paramList_yields.of_imp fun _ h => h.2.mp hb) (.node .paramList _ fun us => by simp) ?_
  exact .last optionalType_yields (optionalType_adds fun us => by simp)
    (functionBody_adds (fun us => by simp [kindsBehind]) fun us => by simp [kindsBehind])

theorem functionDecl_signs : Signs (fun o => o.WordAt 0 "declare" ∧ o.WordAt 1 "function") functionDecl .signature := by
  have hname : Adds (checkNamespace >>= fun _ => expectQName "function name") fun x => x.1 ≠ .enclosedBody ∧ x.1 ≠ .externalBody :=
    .bind checkNamespace_adds fun _ => expectQName_adds _ fun us => by simp
  have hrest : Signs (fun _ => True) functionRest (.seq .qname (.seq .paramList (.optional .typeDecl))) :=
    .andThen (checkedName_yields _) hname functionTail_signs
  refine .bind (k := fun _ => functionRest) ((takeKeywords_yields (Form.declWords .functionDecl)).of_imp fun o h i ws hi => ?_)
    (takeKeywords_adds _) (fun _ _ _ _ _ => trivial) (fun _ _ => hrest) fun _ h => Bool.noConfusion h
  match i, hi with
  | 0, hi =>
    cases hi
    exact ⟨"declare", by simp, h.1⟩
  | 1, hi =>
    cases hi
    exact ⟨"function", by simp, h.2⟩

/-- A declaration adds one node, in front of which the trivia are placed. -/
theorem parts_declaration (kind : NodeKind) (r : Rule Bool) (c : Cursor) :
    (declaration kind r c).2.parts =
      c.parts ++ (leavesFor c.outlook.trivia ++ [.node kind (throughSemicolon r (c.placeTrivia.startNode kind)).2.parts]) := by
  rw [declaration_eq, ← List.append_assoc, ← parts_placeTrivia]
  rfl

/-- What is in a function declaration, complete or not. -/
def FunctionSigned (ts : List Tree) : Prop :=
  Bodiless ts ∨ ∃ us vs, ts = us ++ vs ∧ Form.signature.Makes us ∧ Tree.Bare us ∧ ∀ x ∈ Tree.constructs vs, x.1 ∈ kindsBehind

/-- A function declaration is signed, whatever is wrong with it. -/
theorem functionSigned_of_reads {c : Cursor} (h : c.outlook.WordAt 0 "declare" ∧ c.outlook.WordAt 1 "function") (ho : c.outlook.Lexical) :
    FunctionSigned (throughSemicolon functionDecl (c.placeTrivia.startNode .functionDecl)).2.parts := by
  have hsigns : Signs (fun o => o.WordAt 0 "declare" ∧ o.WordAt 1 "function") (throughSemicolon functionDecl) .signature := by
    have hskip : Adds (do if ← sees .semicolon then pure () else report .expectedToken "`;` after declaration"; skipUntil atRecovery)
        (·.1 = .error) :=
      .bind (.of_keeps (sees_head .semicolon)) fun _ => .ite (.pure ()) (.bind (.reportNext _ _) fun _ => skipToRecovery_adds)
    exact .thenAdds (.thenAdds functionDecl_signs fun _ => .ite hskip skipToRecovery_adds) fun _ => .accept _
  have hplaced : (c.placeTrivia.startNode .functionDecl).outlook = c.outlook.placed := outlook_placeTrivia c
  have hwords : ∀ i word, c.outlook.placed.WordAt i word ↔ c.outlook.WordAt i word := by
    intro i word
    obtain ⟨_ | ⟨l, ls⟩, tail, reached⟩ := c.outlook
    · exact Iff.rfl
    · cases i <;> exact Iff.rfl
  obtain ⟨ts, hts, hsigned⟩ := hsigns (c.placeTrivia.startNode .functionDecl) (hplaced ▸ ⟨(hwords _ _).mpr h.1, (hwords _ _).mpr h.2⟩)
  rw [hplaced] at hsigned
  rw [hts]
  rcases hsigned with hnone | ⟨us, vs, o', rfl, hbuilds, hvs⟩
  · exact .inl hnone
  · exact .inr ⟨us, vs, rfl, hbuilds.makes ho.placed, (hbuilds.bare ho.placed c.outlook.trivia_placed).1, hvs⟩

end QueryStubs.Grammar
