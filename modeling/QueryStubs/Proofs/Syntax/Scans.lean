import QueryStubs.Grammar.Module
import QueryStubs.Proofs.Reader.Types
import QueryStubs.Proofs.Syntax.Terms

/-!
# Reading runs of lexemes

Three rules do not look into what they read but for its brackets: the one for balanced brackets, the one for the value of a variable
and the one for a query body. Each is a loop that takes one lexeme after another, and `depthAfter` counts as it counts. It counts to
the end of the source, or up to a bracket that closes what the run stands in (`depthAfter_split`); so there is at most one place where
the run can end (`depthAfter_unique`), and the loop ends there.
-/

namespace QueryStubs.Grammar

open QueryStubs

/-! ## Depths -/

section

variable {opens closes stops : TokenKind → Bool}

/-- Outside all brackets a lexeme of such a kind ends a run. -/
def Ends (opens closes stops : TokenKind → Bool) (k : TokenKind) : Prop :=
  opens k = false ∧ (closes k = true ∨ stops k = true)

/-- An opening bracket adds one to the depth. -/
theorem depthAfter_open {k : TokenKind} (ho : opens k = true) (n : Nat) (ks : List TokenKind) :
    depthAfter opens closes stops n (k :: ks) = depthAfter opens closes stops (n + 1) ks := by
  simp [depthAfter, ho]

/-- A closing bracket takes one from it. -/
theorem depthAfter_close {k : TokenKind} (ho : opens k = false) (hc : closes k = true) (n : Nat) (ks : List TokenKind) :
    depthAfter opens closes stops (n + 1) (k :: ks) = depthAfter opens closes stops n ks := by
  simp [depthAfter, ho, hc]

/-- Anything else that does not end the run leaves it. -/
theorem depthAfter_other {k : TokenKind} {n : Nat} (ho : opens k = false) (hc : closes k = false)
    (hs : ¬ (n = 0 ∧ stops k = true)) (ks : List TokenKind) :
    depthAfter opens closes stops n (k :: ks) = depthAfter opens closes stops n ks := by
  simp [depthAfter, ho, hc, hs]

/-- Lexemes are counted one after the other. -/
theorem depthAfter_append (n : Nat) (ks ks' : List TokenKind) :
    depthAfter opens closes stops n (ks ++ ks') =
      (depthAfter opens closes stops n ks).bind fun m => depthAfter opens closes stops m ks' := by
  fun_induction depthAfter opens closes stops n ks with
  | case1 => rfl
  | case2 n k ks ho ih => simpa [depthAfter, ho] using ih
  | case3 k ks ho hc => simp [depthAfter, ho, hc]
  | case4 k ks ho hc n ih => simpa [depthAfter, ho, hc] using ih
  | case5 n k ks ho hc hs => simp [depthAfter, ho, hc, hs]
  | case6 n k ks ho hc hs ih => simpa [depthAfter, ho, hc, hs] using ih

/-- There is no run with a lexeme outside all brackets that ends it. -/
theorem depthAfter_ends {k : TokenKind} (h : Ends opens closes stops k) (ks : List TokenKind) :
    depthAfter opens closes stops 0 (k :: ks) = none := by
  obtain ⟨ho, hc⟩ := h
  rw [depthAfter, ho, if_neg Bool.false_ne_true]
  split
  · rfl
  · next hn => rw [if_pos ⟨rfl, hc.resolve_left hn⟩]

/-- Lexemes can be counted to their end, or up to one that ends the run they start with. -/
theorem depthAfter_split (opens closes stops : TokenKind → Bool) (n : Nat) (ls : List Lexeme) :
    (∃ m, depthAfter opens closes stops n (ls.map (·.kind)) = some m) ∨
      ∃ run l rest, ls = run ++ l :: rest ∧ depthAfter opens closes stops n (run.map (·.kind)) = some 0 ∧
        Ends opens closes stops l.kind := by
  induction ls generalizing n with
  | nil => exact .inl ⟨n, rfl⟩
  | cons l ls ih =>
    by_cases he : n = 0 ∧ Ends opens closes stops l.kind
    · exact .inr ⟨[], l, ls, rfl, by rw [he.1]; rfl, he.2⟩
    · obtain ⟨k, hk⟩ : ∃ k, ∀ ks, depthAfter opens closes stops n (l.kind :: ks) = depthAfter opens closes stops k ks := by
        cases ho : opens l.kind with
        | true => exact ⟨n + 1, depthAfter_open ho n⟩
        | false =>
          cases hc : closes l.kind with
          | true =>
            cases n with
            | zero => exact absurd ⟨rfl, ho, .inl hc⟩ he
            | succ n => exact ⟨n, depthAfter_close ho hc n⟩
          | false => exact ⟨n, depthAfter_other ho hc fun h => he ⟨h.1, ho, .inr h.2⟩⟩
      rcases ih k with ⟨m, hm⟩ | ⟨run, l', rest, rfl, hr, hl⟩
      · exact .inl ⟨m, (hk _).trans hm⟩
      · exact .inr ⟨l :: run, l', rest, rfl, (hk _).trans hr, hl⟩

/-- What can be counted reaches no further than the run. -/
theorem depthAfter_prefix {run run' rest rest' : List Lexeme} {l : Lexeme} {n m : Nat} (he : run ++ l :: rest = run' ++ rest')
    (hr : depthAfter opens closes stops n (run.map (·.kind)) = some 0) (hl : Ends opens closes stops l.kind)
    (hr' : depthAfter opens closes stops n (run'.map (·.kind)) = some m) : ∃ more, run = run' ++ more := by
  rcases List.append_eq_append_iff.mp he with ⟨more, hm, hrest⟩ | ⟨more, hm, -⟩
  · cases more with
    | nil => exact ⟨[], by rw [hm, List.append_nil, List.append_nil]⟩
    | cons k more =>
      rw [List.cons_append, List.cons.injEq] at hrest
      obtain ⟨rfl, -⟩ := hrest
      rw [hm, List.map_append, depthAfter_append, hr, List.map_cons, Option.bind_some, depthAfter_ends hl] at hr'
      cases hr'
  · exact ⟨more, hm⟩

/-- There is one run at most. -/
theorem depthAfter_unique {run run' rest rest' : List Lexeme} {l l' : Lexeme} {n : Nat}
    (he : run ++ l :: rest = run' ++ l' :: rest') (hr : depthAfter opens closes stops n (run.map (·.kind)) = some 0)
    (hl : Ends opens closes stops l.kind) (hr' : depthAfter opens closes stops n (run'.map (·.kind)) = some 0)
    (hl' : Ends opens closes stops l'.kind) : run = run' ∧ l = l' ∧ rest = rest' := by
  obtain ⟨more, rfl⟩ := depthAfter_prefix he hr hl hr'
  obtain ⟨more', hm⟩ := depthAfter_prefix he.symm hr' hl' hr
  rw [List.append_assoc, List.self_eq_append_right, List.append_eq_nil_iff] at hm
  obtain ⟨rfl, -⟩ := hm
  rw [List.append_nil, List.append_cancel_left_eq, List.cons.injEq] at he
  exact ⟨List.append_nil _, he⟩

/-- Where everything can be counted there is none. -/
theorem depthAfter_all {ls run rest : List Lexeme} {l : Lexeme} {n m : Nat} (he : ls = run ++ l :: rest)
    (hl : Ends opens closes stops l.kind) (h : depthAfter opens closes stops n (ls.map (·.kind)) = some m) :
    depthAfter opens closes stops n (run.map (·.kind)) ≠ some 0 := by
  intro hr
  obtain ⟨more, hm⟩ := depthAfter_prefix (he.symm.trans (List.append_nil ls).symm) hr hl h
  have := congrArg List.length (he.trans (congrArg (· ++ l :: rest) hm))
  simp at this

end

/-- A reader stays within the literal it may be in, whatever it takes. -/
theorem Within.behind {run ls : List Lexeme} (h : Within (run ++ ls)) : Within ls := by
  induction run with
  | nil => exact h
  | cons l run ih => exact ih h.tail

/-! ## Loops that take one lexeme after another -/

/-- The loop takes some lexemes one after the other. -/
inductive Carries (step : σ → Rule (Bool × σ)) : σ → List Lexeme → σ → Prop
  | done (a : σ) : Carries step a [] a
  | take {a b z : σ} {l : Lexeme} {run : List Lexeme} :
      (∀ (c : Cursor) ls, c.ahead = l :: ls →
        ∃ d, step a c = ((true, b), d) ∧ Cursor.toReading d = c.toReading.past (leavesFor l.tokens) [l] ls) →
        Carries step b run z → Carries step a (l :: run) z

/-- It goes on behind them. -/
theorem Carries.loop {step : σ → Rule (Bool × σ)} {a z : σ} {run ls : List Lexeme} (h : Carries step a run z) {c : Cursor}
    {s : Reading} (hc : c.toReading = s) (ha : s.ahead = run ++ ls) :
    ∃ d, repeatRule step a c = repeatRule step z d ∧
      Cursor.toReading d = s.past (leavesFor (run.flatMap Lexeme.tokens)) run ls := by
  induction h generalizing c s with
  | done a =>
    subst hc
    exact ⟨c, rfl, by simp [Reading.past, leavesFor, reachedBy, ← show c.ahead = ls from ha]⟩
  | @take a b z l run hs _ ih =>
    subst hc
    obtain ⟨d, hd, hr⟩ := hs c (run ++ ls) ha
    obtain ⟨e, he, hr'⟩ := ih hr rfl
    refine ⟨e, ?_, ?_⟩
    · have hlt : d.ahead.length < c.ahead.length := by
        rw [show d.ahead = run ++ ls from congrArg Reading.ahead hr, show c.ahead = l :: (run ++ ls) from ha]
        exact Nat.lt_succ_self _
      rw [repeatRule, hd, ← he]
      exact if_pos hlt
    · rw [hr', Reading.past_past]
      simp [leavesFor]

/-- A loop ends where its step does. -/
theorem repeatRule_done {step : σ → Rule (Bool × σ)} {a b : σ} {c d : Cursor} (h : step a c = ((false, b), d)) :
    repeatRule step a c = (b, d) := by
  rw [repeatRule, h]

/-- What is left of a loop behind a round that started with so many lexemes ahead. -/
def loopBehind (step : σ → Rule (Bool × σ)) (n : Nat) (b : σ) : Rule σ := fun d =>
  if d.ahead.length < n then repeatRule step b d else (b, d.demand false .stuck)

/-- A loop does a round and then what is left of it. -/
theorem repeatRule_round (step : σ → Rule (Bool × σ)) (a : σ) (c : Cursor) :
    repeatRule step a c = (step a >>= fun r => if r.1 = true then loopBehind step c.ahead.length r.2 else pure r.2) c := by
  rw [repeatRule, bind_run]
  generalize step a c = r
  obtain ⟨⟨goesOn, b⟩, d⟩ := r
  cases goesOn <;> rfl

/-- A loop keeps the errors that were reported if its steps do. -/
theorem Stays.repeatRule {step : σ → Rule (Bool × σ)} (h : ∀ a, Stays (step a)) (a : σ) : Stays (repeatRule step a) := by
  intro c
  fun_induction Grammar.repeatRule step a c with
  | case1 a c b d hs => exact fun he => by have := h a c he; rwa [hs] at this
  | case2 a c b d hs _ ih => exact fun he => ih (by have := h a c he; rwa [hs] at this)
  | case3 a c b d hs _ =>
    intro he
    have hd := h a c he
    rw [hs] at hd
    exact (demand_keeps false .stuck).stays d hd

/-- An error stays reported through the rest of a loop. -/
theorem loopBehind_stays {step : σ → Rule (Bool × σ)} (h : ∀ a, Stays (step a)) (n : Nat) (b : σ) : Stays (loopBehind step n b) := by
  intro d he
  unfold loopBehind
  split
  · exact Stays.repeatRule h b d he
  · exact (demand_keeps false .stuck).stays d he

/-- An error that one step reports is there in the end. -/
theorem repeatRule_error {step : σ → Rule (Bool × σ)} (h : ∀ a, Stays (step a)) {a : σ} {c : Cursor}
    (he : (step a c).2.HasError) : (repeatRule step a c).2.HasError := by
  rw [repeatRule_round, bind_run]
  generalize step a c = r at he
  obtain ⟨⟨goesOn, b⟩, d⟩ := r
  cases goesOn with
  | false => exact he
  | true => exact loopBehind_stays h _ b d he

/-! ## Balanced brackets -/

section

variable {S : Prop} {F : Option Token → Prop} {openKind closeKind : TokenKind}

/-- It stays so through a round of a bracketed region. -/
theorem balancedStep_stays (unclosed : DiagnosticKind) (note : String) (opening : Span) (depth : Nat)
    (he : unclosed.severity = .error) : Stays (balancedStep openKind closeKind unclosed note opening depth) := by
  refine nextKind_looks.keeps.stays.bind fun kind => atEnd_looks.keeps.stays.bind fun b => ?_
  cases b with
  | true => exact (Fails.reportUnclosed (P := fun _ => True) note opening he).stays.bind fun _ _ h => h
  | false =>
    refine take_stays.bind fun _ c h => ?_
    split
    · exact h
    · split <;> exact h

/-- The step takes the next lexeme and counts it. -/
theorem balancedStep_past (openKind closeKind : TokenKind) (unclosed : DiagnosticKind) (note : String) (opening : Span) (depth : Nat)
    {c : Cursor} {l : Lexeme} {ls : List Lexeme} (ha : c.ahead = l :: ls) :
    ∃ d, balancedStep openKind closeKind unclosed note opening depth c =
        (if l.kind = openKind then (true, depth + 1) else if l.kind = closeKind then (decide (1 < depth), depth - 1)
          else (true, depth), d) ∧ Cursor.toReading d = c.toReading.past (leavesFor l.tokens) [l] ls := by
  unfold balancedStep
  obtain ⟨kind, d, he, hd, hk⟩ := nextKind_looks.keeps.peel (c := c) rfl _
  rw [he]
  obtain ⟨b, d, he, hd, hb⟩ := atEnd_looks.keeps.peel hd _
  rw [he]
  have hk : kind = some l.kind := by simpa [Reading.outlook, ha] using hk
  have hn : b = false := by simpa [Reading.outlook, ha] using hb
  subst hk hn
  obtain ⟨d, he, hd⟩ := take_peel hd ha _
  refine ⟨d, he.trans ?_, hd⟩
  simp only [Option.some.injEq]
  split
  · rfl
  · split <;> rfl

/-- Inside the outermost bracket the loop goes on as long as brackets are balanced. -/
theorem balancedStep_carries (unclosed : DiagnosticKind) (note : String) (opening : Span) {n m : Nat} {run : List Lexeme}
    (h : depthAfter (· = openKind) (· = closeKind) (fun _ => false) n (run.map (·.kind)) = some m) :
    Carries (balancedStep openKind closeKind unclosed note opening) (n + 1) run (m + 1) := by
  induction run generalizing n with
  | nil =>
    cases h
    exact .done _
  | cons l run ih =>
    by_cases ho : l.kind = openKind
    · rw [List.map_cons, depthAfter_open (decide_eq_true ho)] at h
      refine .take (fun c ls ha => ?_) (ih h)
      obtain ⟨d, he, hd⟩ := balancedStep_past _ _ unclosed note opening (n + 1) ha
      exact ⟨d, by rw [he, if_pos ho], hd⟩
    by_cases hc : l.kind = closeKind
    · cases n with
      | zero =>
        rw [List.map_cons, depthAfter_ends ⟨decide_eq_false ho, .inl (decide_eq_true hc)⟩] at h
        cases h
      | succ n =>
        rw [List.map_cons, depthAfter_close (decide_eq_false ho) (decide_eq_true hc)] at h
        refine .take (fun c ls ha => ?_) (ih h)
        obtain ⟨d, he, hd⟩ := balancedStep_past _ _ unclosed note opening (n + 2) ha
        refine ⟨d, ?_, hd⟩
        rw [he, if_neg ho, if_pos hc, decide_eq_true (Nat.lt_add_left n Nat.one_lt_two)]
        rfl
    · rw [List.map_cons, depthAfter_other (decide_eq_false ho) (decide_eq_false hc) (fun h => Bool.false_ne_true h.2)] at h
      refine .take (fun c ls ha => ?_) (ih h)
      obtain ⟨d, he, hd⟩ := balancedStep_past _ _ unclosed note opening (n + 1) ha
      exact ⟨d, by rw [he, if_neg ho, if_neg hc], hd⟩

/-- At the end of the source the outermost bracket is reported. -/
theorem balancedStep_error {unclosed : DiagnosticKind} (note : String) (opening : Span) (depth : Nat) {c : Cursor}
    (hu : unclosed.severity = .error) (hc : c.Clean) (ha : c.ahead = []) :
    (balancedStep openKind closeKind unclosed note opening depth c).2.HasError := by
  unfold balancedStep
  obtain ⟨kind, d, he, hd, -⟩ := nextKind_looks.keeps.peel (c := c) rfl _
  rw [he]
  obtain ⟨b, d, he, hd, hb⟩ := atEnd_looks.keeps.peel hd _
  rw [he]
  have hy : b = true := hb.mpr ha
  subst hy
  exact (Fails.reportUnclosed (P := fun _ => True) note opening hu).error d (hd ▸ hc) trivial

/-- What is built of two brackets and what is between them. -/
theorem builds_bracketed_iff {l : Lexeme} {ls : List Lexeme} {tail : List Token} {reached : Nat} {ts : List Tree} {o : Outlook}
    (hl : l.kind = openKind) :
    (Form.bracketed openKind closeKind).Builds ⟨l :: ls, tail, reached⟩ ts o ↔
      ∃ run k rest, ls = run ++ k :: rest ∧ Balanced openKind closeKind (run.map (·.kind)) ∧ k.kind = closeKind ∧
        ts = leavesFor ((l :: run ++ [k]).flatMap Lexeme.tokens) ∧ o = ⟨rest, tail, k.span.stop⟩ := by
  constructor
  · intro hb
    cases hb with
    | seq hfirst hrest =>
      cases hfirst
      generalize ho : (⟨ls, tail, l.span.stop⟩ : Outlook) = p at hrest
      cases hrest with
      | seq hrun hlast =>
        cases hrun with
        | run _ _ _ hb =>
          cases ho
          cases hlast with
          | one _ _ _ hk => exact ⟨_, _, _, rfl, hb, of_decide_eq_true hk, by simp [leavesFor, Lexeme.tokens], rfl⟩
  · rintro ⟨run, k, rest, rfl, hb, hk, rfl, rfl⟩
    have hbuilds : (Form.bracketed openKind closeKind).Builds ⟨l :: (run ++ k :: rest), tail, reached⟩ _ ⟨rest, tail, k.span.stop⟩ :=
      .seq (.one _ _ _ (decide_eq_true hl)) (.seq (.run _ _ _ hb) (.one _ _ _ (decide_eq_true hk)))
    simpa [leavesFor, Lexeme.tokens] using hbuilds

/-- The rule takes the opening bracket, and then the loop starts. -/
theorem balanced_opened (openKind closeKind : TokenKind) (unclosed : DiagnosticKind) (note : String) {c : Cursor} {l : Lexeme} {ls : List Lexeme}
    (ha : c.ahead = l :: ls) :
    ∃ opening d, balanced openKind closeKind unclosed note c =
        (decide ((repeatRule (balancedStep openKind closeKind unclosed note opening) 1 d).1 = 0),
          (repeatRule (balancedStep openKind closeKind unclosed note opening) 1 d).2) ∧
      Cursor.toReading d = c.toReading.past (leavesFor l.tokens) [l] ls := by
  unfold balanced
  obtain ⟨opening, d, he, hd, -⟩ := nextSpan_looks.keeps.peel (c := c) rfl _
  rw [he]
  obtain ⟨d, he, hd⟩ := take_peel hd ha _
  exact ⟨opening, d, he, hd⟩

/-- Where the bracket is closed, the rule moves past all of it. -/
theorem balanced_past (unclosed : DiagnosticKind) (note : String) {c : Cursor} {l k : Lexeme} {run rest : List Lexeme}
    (ha : c.ahead = l :: (run ++ k :: rest)) (hr : Balanced openKind closeKind (run.map (·.kind))) (hk : k.kind = closeKind)
    (hne : closeKind ≠ openKind) :
    (balanced openKind closeKind unclosed note c).1 = true ∧
      (balanced openKind closeKind unclosed note c).2.toReading =
        c.toReading.past (leavesFor ((l :: run ++ [k]).flatMap Lexeme.tokens)) (l :: run ++ [k]) rest := by
  obtain ⟨opening, d, he, hd⟩ := balanced_opened openKind closeKind unclosed note ha
  obtain ⟨e, hloop, hed⟩ := (balancedStep_carries unclosed note opening hr).loop hd rfl
  obtain ⟨z, hz, hzd⟩ := balancedStep_past openKind closeKind unclosed note opening 1 (congrArg Reading.ahead hed)
  rw [if_neg (hk ▸ hne), if_pos hk] at hz
  rw [he, hloop, repeatRule_done hz, hzd, hed, Reading.past_past, Reading.past_past]
  exact ⟨rfl, by simp [leavesFor]⟩

/-- Where it is not, the rule reports an error. -/
theorem balanced_error {unclosed : DiagnosticKind} (hu : unclosed.severity = .error) (note : String) {c : Cursor} {l : Lexeme}
    {ls : List Lexeme} {m : Nat} (hc : c.Clean) (ha : c.ahead = l :: ls)
    (hm : depthAfter (· = openKind) (· = closeKind) (fun _ => false) 0 (ls.map (·.kind)) = some m) :
    (balanced openKind closeKind unclosed note c).2.HasError := by
  obtain ⟨opening, d, he, hd⟩ := balanced_opened openKind closeKind unclosed note ha
  have hnil : ls = ls ++ [] := (List.append_nil ls).symm
  obtain ⟨e, hloop, hed⟩ := (balancedStep_carries unclosed note opening hm).loop hd hnil
  have hcl : e.Clean := by
    rw [hed, Reading.past_past]
    exact hc.past _ (ha.trans (congrArg (l :: ·) hnil)) .nil
  rw [he, hloop]
  exact repeatRule_error (fun depth => balancedStep_stays unclosed note opening depth hu)
    (balancedStep_error note opening _ hu hcl (congrArg Reading.ahead hed))

/-- A bracketed region is read as one that is balanced. -/
theorem balanced_reads {unclosed : DiagnosticKind} (hu : unclosed.severity = .error) (hopen : openKind.isPlain = true)
    (hclose : closeKind.isPlain = true) (hne : closeKind ≠ openKind) (note : String) :
    Reads S (fun o => IsKind openKind o.head) (balanced openKind closeKind unclosed note) id (.bracketed openKind closeKind) F := by
  refine .of_past (nextSpan_looks.keeps.stays.bind fun opening => take_stays.bind fun _ =>
    (Stays.repeatRule (fun depth => balancedStep_stays unclosed note opening depth hu) 1).bind fun _ _ h => h) fun c hc hp => ?_
  obtain ⟨l, ls, ha, hco, hk⟩ := IsKind.outlook_eq hp
  have hal := hc.aligned
  rw [ha] at hal
  have hal : Aligned ls := hal.tail (by rw [Lexeme.kind, hk]; exact hopen)
  have hends : ∀ k : Lexeme, k.kind = closeKind → Ends (· = openKind) (· = closeKind) (fun _ => false) k.kind := fun k hk =>
    ⟨decide_eq_false (hk ▸ hne), .inl (decide_eq_true hk)⟩
  rw [hco]
  rcases depthAfter_split (· = openKind) (· = closeKind) (fun _ => false) 0 ls with ⟨m, hm⟩ | ⟨run, k, rest, rfl, hr, hkk⟩
  · refine .inl ⟨balanced_error hu note hc ha hm, fun ts o hb _ => ?_⟩
    obtain ⟨run, k, rest, hls, hr, hk, -⟩ := (builds_bracketed_iff hk).mp hb
    exact depthAfter_all hls (hends k hk) hm hr
  · have hkk : k.kind = closeKind := of_decide_eq_true (hkk.2.resolve_right Bool.false_ne_true)
    have hrest : Aligned rest := ((Within.behind (.outside hal)).aligned (hkk ▸ hclose)).tail (hkk ▸ hclose)
    have hreach : reachedBy c.reached (l :: run ++ [k]) = k.span.stop := reachedBy_append _ _ _
    obtain ⟨hgood, hpast⟩ := balanced_past unclosed note ha hr hkk hne
    refine .inr ⟨_, _, rest, by simp [ha], hrest, hgood, hpast, ?_, fun us o hb _ => ?_⟩
    · rw [hreach]
      exact (builds_bracketed_iff hk).mpr ⟨run, k, rest, rfl, hr, hkk, rfl, rfl⟩
    · obtain ⟨run', k', rest', hls, hr', hk', rfl, rfl⟩ := (builds_bracketed_iff hk).mp hb
      obtain ⟨rfl, rfl, rfl⟩ := depthAfter_unique hls hr (hends k hkk) hr' (hends k' hk')
      exact ⟨rfl, by rw [hreach]⟩

end

/-! ## Values -/

/-- Outside all brackets such a lexeme ends a value. -/
abbrev EndsValue : TokenKind → Prop := Ends TokenKind.isOpening TokenKind.isClosing (· = .semicolon)

/-- It is a semicolon or a closing bracket. -/
theorem endsValue_iff {k : TokenKind} : EndsValue k ↔ (decide (k = .semicolon) || k.isClosing) = true := by
  cases k <;> simp [Ends, TokenKind.isOpening, TokenKind.isClosing]

/-- The brackets that are open behind a lexeme are counted as such. -/
theorem depthAfter_after {b : OpenBrackets} {k : TokenKind}
    (h : ¬ (b.stack = [] ∧ EndsValue k)) (span : Span) (ks : List TokenKind) :
    depthAfter TokenKind.isOpening TokenKind.isClosing (· = .semicolon) b.stack.length (k :: ks) =
      depthAfter TokenKind.isOpening TokenKind.isClosing (· = .semicolon) (b.after k span).stack.length ks := by
  obtain ⟨stack, empty⟩ := b
  unfold OpenBrackets.after
  cases ho : k.isOpening with
  | true => exact depthAfter_open ho _ ks
  | false =>
    cases hc : k.isClosing with
    | true =>
      cases stack with
      | nil => exact absurd ⟨rfl, ho, .inl hc⟩ h
      | cons x stack => exact depthAfter_close ho hc _ ks
    | false => exact depthAfter_other ho hc (fun hs => h ⟨List.length_eq_zero_iff.mp hs.1, ho, .inr hs.2⟩) ks

/-- An error stays reported through a round of a value. -/
theorem valueStep_stays (b : OpenBrackets) : Stays (valueStep b) := by
  refine nextKind_looks.keeps.stays.bind fun kind => ?_
  cases kind with
  | none => exact fun _ h => h
  | some kind =>
    intro c h
    change (if _ then _ else _ : Rule _) c |>.2.HasError
    split
    · exact h
    · exact (nextSpan_looks.keeps.stays.bind fun _ => take_stays.bind fun _ _ h => h) c h

/-- The step takes the next lexeme if the value does not end there. -/
theorem valueStep_past {b : OpenBrackets} {c : Cursor} {l : Lexeme} {ls : List Lexeme} (ha : c.ahead = l :: ls)
    (h : ¬ (b.stack = [] ∧ EndsValue l.kind)) :
    ∃ d, valueStep b c = ((true, b.after l.kind l.span), d) ∧
      Cursor.toReading d = c.toReading.past (leavesFor l.tokens) [l] ls := by
  unfold valueStep
  obtain ⟨kind, d, he, hd, hk⟩ := nextKind_looks.keeps.peel (c := c) rfl _
  rw [he]
  have hk : kind = some l.kind := by simpa [Reading.outlook, ha] using hk
  subst hk
  have hn : ¬ (b.stack.isEmpty && (decide (l.kind = .semicolon) || l.kind.isClosing)) = true := by
    rw [Bool.and_eq_true, List.isEmpty_iff, ← endsValue_iff]
    exact h
  simp only [if_neg hn]
  obtain ⟨span, d, he, hd, hs⟩ := nextSpan_looks.keeps.peel hd _
  rw [he, hs l ls ha]
  obtain ⟨d, he, hd⟩ := take_peel hd ha _
  exact ⟨d, he, hd⟩

/-- Where it ends, or at the end of the source, the step is done. -/
theorem valueStep_done {b : OpenBrackets} {c : Cursor}
    (h : c.ahead = [] ∨ b.stack = [] ∧ ∃ l ls, c.ahead = l :: ls ∧ EndsValue l.kind) :
    ∃ d, valueStep b c = ((false, b), d) ∧ Cursor.toReading d = c.toReading := by
  unfold valueStep
  obtain ⟨kind, d, he, hd, hk⟩ := nextKind_looks.keeps.peel (c := c) rfl _
  rw [he]
  rcases h with ha | ⟨hb, l, ls, ha, hl⟩
  · have hk : kind = none := by simpa [Reading.outlook, ha] using hk
    subst hk
    exact ⟨d, rfl, hd⟩
  · have hk : kind = some l.kind := by simpa [Reading.outlook, ha] using hk
    subst hk
    have hy : (b.stack.isEmpty && (decide (l.kind = .semicolon) || l.kind.isClosing)) = true := by
      rw [Bool.and_eq_true, List.isEmpty_iff, ← endsValue_iff]
      exact ⟨hb, hl⟩
    simp only [if_pos hy]
    exact ⟨d, rfl, hd⟩

/-- The loop takes what can be counted. -/
theorem valueStep_carries {b : OpenBrackets} {m : Nat} {run : List Lexeme}
    (h : depthAfter TokenKind.isOpening TokenKind.isClosing (· = .semicolon) b.stack.length (run.map (·.kind)) = some m) :
    ∃ z, z.stack.length = m ∧ z.isEmpty = (b.isEmpty && run.isEmpty) ∧ Carries valueStep b run z := by
  induction run generalizing b with
  | nil =>
    cases h
    exact ⟨b, rfl, (Bool.and_true _).symm, .done b⟩
  | cons l run ih =>
    by_cases hn : b.stack = [] ∧ EndsValue l.kind
    · rw [hn.1, List.map_cons, List.length_nil, depthAfter_ends hn.2] at h
      cases h
    · rw [List.map_cons, depthAfter_after hn l.span] at h
      obtain ⟨z, hz, hempty, hcarries⟩ := ih h
      refine ⟨z, hz, ?_, .take (fun c ls ha => valueStep_past ha hn) hcarries⟩
      have hafter : (b.after l.kind l.span).isEmpty = false := by
        unfold OpenBrackets.after
        split
        · rfl
        · split <;> rfl
      rw [hempty, hafter]
      simp

/-- To close a value is a failure where brackets are open or nothing was read. -/
theorem closeValue_fails {P : Outlook → Prop} {b : OpenBrackets} (h : b.stack ≠ [] ∨ b.isEmpty = true) : Fails P (closeValue b) := by
  obtain ⟨stack, empty⟩ := b
  cases stack with
  | nil =>
    have he : empty = true := h.resolve_left fun hn => hn rfl
    subst he
    exact (Fails.reportNext _ rfl).thenPure false
  | cons x stack =>
    have hu : (if x.1 = .braceOpen then DiagnosticKind.unclosedBody else .unclosedParens).severity = .error := by split <;> rfl
    exact (Fails.reportUnclosed _ x.2 hu).thenPure false

/-- An error stays reported where a value is closed. -/
theorem closeValue_stays (b : OpenBrackets) : Stays (closeValue b) := by
  by_cases h : b.stack ≠ [] ∨ b.isEmpty = true
  · exact (closeValue_fails (P := fun _ => True) h).stays
  · obtain ⟨_ | ⟨x, stack⟩, empty⟩ := b
    · have he : empty = false := by simpa using h
      subst he
      exact fun _ h => h
    · exact absurd (.inl (List.cons_ne_nil x stack)) h

/-- What is behind the mark `:=` is split where the value ends. -/
theorem value_split (ls : List Lexeme) (h : Aligned ls) :
    ∃ run rest m, ls = run ++ rest ∧ Aligned rest ∧
      depthAfter TokenKind.isOpening TokenKind.isClosing (· = .semicolon) 0 (run.map (·.kind)) = some m ∧
        (rest = [] ∨ m = 0 ∧ ∃ l more, rest = l :: more ∧ EndsValue l.kind) := by
  rcases depthAfter_split TokenKind.isOpening TokenKind.isClosing (· = .semicolon) 0 ls with ⟨m, hm⟩ | ⟨run, l, rest, rfl, hr, hl⟩
  · exact ⟨ls, [], m, (List.append_nil ls).symm, .nil, hm, .inl rfl⟩
  · have hplain : l.kind.isPlain = true := by
      rcases hl.2 with hc | hs
      · exact isPlain_of_isClosing hc
      · rw [of_decide_eq_true hs]
        rfl
    exact ⟨run, l :: rest, 0, rfl, (Within.behind (.outside h)).aligned hplain, hr, .inr ⟨rfl, l, rest, rfl, hl⟩⟩

/-- A value before a semicolon is all that is before it. -/
theorem value_unique {run run' rest rest' : List Lexeme} {l : Lexeme} {m : Nat} (he : run ++ rest = run' ++ l :: rest')
    (hm : depthAfter TokenKind.isOpening TokenKind.isClosing (· = .semicolon) 0 (run.map (·.kind)) = some m)
    (hrest : rest = [] ∨ m = 0 ∧ ∃ l more, rest = l :: more ∧ EndsValue l.kind)
    (hr : depthAfter TokenKind.isOpening TokenKind.isClosing (· = .semicolon) 0 (run'.map (·.kind)) = some 0)
    (hl : l.kind = .semicolon) : run = run' ∧ m = 0 := by
  have hl : EndsValue l.kind := endsValue_iff.mpr (by simp [hl])
  rcases hrest with rfl | ⟨rfl, k, more, rfl, hk⟩
  · rw [List.append_nil] at he
    exact absurd hr (depthAfter_all he hl hm)
  · exact ⟨(depthAfter_unique he hm hk hr hl).1, rfl⟩

/-- A value is read up to the semicolon behind it. -/
theorem value_reads {S : Prop} {P : Outlook → Prop} :
    Reads S P (repeatRule valueStep {} >>= closeValue) id (.run ValueKinds) (IsKind .semicolon) := by
  refine .of_past ((Stays.repeatRule valueStep_stays _).bind closeValue_stays) fun c hc _ => ?_
  obtain ⟨run, rest, m, ha, hal, hm, hrest⟩ := value_split c.ahead hc.aligned
  obtain ⟨z, hz, hempty, hcarries⟩ := valueStep_carries (b := {}) hm
  obtain ⟨d, hloop, hd⟩ := hcarries.loop (c := c) rfl ha
  have hdone : d.ahead = [] ∨ z.stack = [] ∧ ∃ l ls, d.ahead = l :: ls ∧ EndsValue l.kind := by
    rw [show d.ahead = rest from congrArg Reading.ahead hd]
    exact hrest.imp id fun h => ⟨List.length_eq_zero_iff.mp (hz.trans h.1), h.2⟩
  obtain ⟨e, he, hed⟩ := valueStep_done hdone
  have hrun : (repeatRule valueStep {} >>= closeValue) c = closeValue z e := by
    rw [bind_run, hloop, repeatRule_done he]
  have hpast := hed.trans hd
  have hbuilds : ∀ ts o, (Form.run ValueKinds).Builds c.outlook ts o → IsKind .semicolon o.head →
      m = 0 ∧ run ≠ [] ∧ ts = leavesFor (run.flatMap Lexeme.tokens) ∧ o = ⟨rest, c.tail, reachedBy c.reached run⟩ := by
    intro ts o hb ho
    rw [Reading.outlook] at hb
    generalize hco : (⟨c.ahead, c.tail, c.reached⟩ : Outlook) = p at hb
    cases hb with
    | @run _ run' ls tail reached hv =>
      injection hco with hra htail hreached
      subst htail hreached
      obtain ⟨l, ls', rfl, hk⟩ := ho.lexeme
      obtain ⟨rfl, hm0⟩ := value_unique (ha.symm.trans hra) hm hrest hv.2 hk
      have hrest : rest = l :: ls' := List.append_cancel_left (ha.symm.trans hra)
      exact ⟨hm0, fun hn => hv.1 (by rw [hn]; rfl), rfl, by rw [hrest]⟩
  rw [hrun]
  by_cases hgood : m = 0 ∧ run ≠ []
  · obtain ⟨rfl, hne⟩ := hgood
    have hclose : closeValue z e = (true, e) := by
      obtain ⟨stack, empty⟩ := z
      have hs : stack = [] := List.length_eq_zero_iff.mp hz
      have hfull : empty = false := hempty.trans (by rw [List.isEmpty_eq_false_iff.mpr hne]; rfl)
      subst hs hfull
      rfl
    rw [hclose]
    refine .inr ⟨_, run, rest, ha, hal, rfl, hpast, ?_, fun us o hb ho => (hbuilds us o hb ho).2.2⟩
    rw [Reading.outlook, ha]
    exact .run rest c.tail c.reached ⟨fun hn => hne (List.map_eq_nil_iff.mp hn), hm⟩
  · refine .inl ⟨(closeValue_fails (P := fun _ => True) ?_).error e (hpast ▸ hc.past _ ha hal) trivial, fun ts o hb ho => ?_⟩
    · by_cases hm0 : m = 0
      · refine .inr ?_
        have hne : run = [] := by_contra fun hn => hgood ⟨hm0, hn⟩
        simpa [hne] using hempty
      · exact .inl fun hs => hm0 (hz.symm.trans (by rw [hs]; rfl))
    · obtain ⟨hm0, hne, -⟩ := hbuilds ts o hb ho
      exact hgood ⟨hm0, hne⟩

/-! ## Query bodies -/

/-- An error stays reported through a round of a query body. -/
theorem queryBodyStep_stays (stack : List Span) : Stays (queryBodyStep stack) := by
  refine nextKind_looks.keeps.stays.bind fun kind => ?_
  split
  · exact fun _ h => h
  · exact nextSpan_looks.keeps.stays.bind fun _ => take_stays.bind fun _ _ h => h
  · split
    · exact (Fails.reportNext (P := fun _ => True) _ rfl).stays.bind fun _ => (take_stays.node .error).bind fun _ _ h => h
    · exact take_stays.bind fun _ _ h => h
  · exact take_stays.bind fun _ _ h => h

/-- The braces that are open behind a lexeme. -/
def bracesAfter (stack : List Span) (l : Lexeme) : List Span :=
  if l.kind = .braceOpen then l.span :: stack else if l.kind = .braceClose then stack.tail else stack

/-- Outside all braces a closing brace ends what is balanced. -/
abbrev EndsBraces : TokenKind → Prop := Ends (· = .braceOpen) (· = .braceClose) fun _ => false

/-- They are counted as such. -/
theorem depthAfter_bracesAfter {stack : List Span} {l : Lexeme} (h : ¬ (stack = [] ∧ EndsBraces l.kind)) (ks : List TokenKind) :
    depthAfter (· = .braceOpen) (· = .braceClose) (fun _ => false) stack.length (l.kind :: ks) =
      depthAfter (· = .braceOpen) (· = .braceClose) (fun _ => false) (bracesAfter stack l).length ks := by
  unfold bracesAfter
  by_cases ho : l.kind = .braceOpen
  · rw [if_pos ho, depthAfter_open (decide_eq_true ho)]
    rfl
  by_cases hc : l.kind = .braceClose
  · rw [if_neg ho, if_pos hc]
    cases stack with
    | nil => exact absurd ⟨rfl, decide_eq_false ho, .inl (decide_eq_true hc)⟩ h
    | cons x stack => exact depthAfter_close (decide_eq_false ho) (decide_eq_true hc) _ ks
  · rw [if_neg ho, if_neg hc, depthAfter_other (decide_eq_false ho) (decide_eq_false hc) fun h => Bool.false_ne_true h.2]

/-- The step takes the next lexeme if it is not a brace that closes nothing. -/
theorem queryBodyStep_past {stack : List Span} {c : Cursor} {l : Lexeme} {ls : List Lexeme} (ha : c.ahead = l :: ls)
    (h : ¬ (stack = [] ∧ EndsBraces l.kind)) :
    ∃ d, queryBodyStep stack c = ((true, bracesAfter stack l), d) ∧
      Cursor.toReading d = c.toReading.past (leavesFor l.tokens) [l] ls := by
  unfold queryBodyStep bracesAfter
  obtain ⟨kind, d, he, hd, hk⟩ := nextKind_looks.keeps.peel (c := c) rfl _
  rw [he]
  have hk : kind = some l.kind := by simpa [Reading.outlook, ha] using hk
  subst hk
  by_cases ho : l.kind = .braceOpen
  · rw [ho, if_pos rfl]
    obtain ⟨span, d, he, hd, hs⟩ := nextSpan_looks.keeps.peel hd fun span => (do
      take
      return (true, span :: stack) : Rule (Bool × List Span))
    obtain ⟨d, he', hd⟩ := take_peel hd ha fun _ => Pure.pure (true, span :: stack)
    refine ⟨d, he.trans (he'.trans ?_), hd⟩
    rw [hs l ls ha]
    rfl
  rw [if_neg ho]
  by_cases hc : l.kind = .braceClose
  · rw [hc, if_pos rfl]
    cases stack with
    | nil => exact absurd ⟨rfl, decide_eq_false ho, .inl (decide_eq_true hc)⟩ h
    | cons x stack =>
      obtain ⟨d, he, hd⟩ := take_peel hd ha fun _ => Pure.pure (true, stack)
      exact ⟨d, he, hd⟩
  · rw [if_neg hc]
    obtain ⟨d, he, hd⟩ := take_peel hd ha fun _ => Pure.pure (true, stack)
    cases hk : l.kind <;> first | exact absurd hk ho | exact absurd hk hc | exact ⟨d, he, hd⟩

/-- A brace that closes nothing is reported. -/
theorem queryBodyStep_error {c : Cursor} {l : Lexeme} {ls : List Lexeme} (hc : c.Clean) (ha : c.ahead = l :: ls)
    (h : l.kind = .braceClose) : (queryBodyStep [] c).2.HasError := by
  unfold queryBodyStep
  obtain ⟨kind, d, he, hd, hk⟩ := nextKind_looks.keeps.peel (c := c) rfl _
  rw [he]
  have hk : kind = some .braceClose := by simpa [Reading.outlook, ha, h] using hk
  subst hk
  have hfails : Fails (fun _ => True) (do
      report .unmatchedDelimiter "`\x7d`"
      node .error take
      return (true, ([] : List Span))) :=
    (Fails.reportNext _ rfl).bind fun _ => (take_stays.node .error).bind fun _ _ h => h
  exact hfails.error d (hd ▸ hc) trivial

/-- At the end of the source the step is done. -/
theorem queryBodyStep_done (stack : List Span) {c : Cursor} (ha : c.ahead = []) :
    ∃ d, queryBodyStep stack c = ((false, stack), d) ∧ Cursor.toReading d = c.toReading := by
  unfold queryBodyStep
  obtain ⟨kind, d, he, hd, hk⟩ := nextKind_looks.keeps.peel (c := c) rfl _
  rw [he]
  have hk : kind = none := by simpa [Reading.outlook, ha] using hk
  subst hk
  exact ⟨d, rfl, hd⟩

/-- The loop takes what can be counted. -/
theorem queryBodyStep_carries (stack : List Span) {m : Nat} {run : List Lexeme}
    (h : depthAfter (· = .braceOpen) (· = .braceClose) (fun _ => false) stack.length (run.map (·.kind)) = some m) :
    ∃ z : List Span, z.length = m ∧ Carries queryBodyStep stack run z := by
  induction run generalizing stack with
  | nil =>
    cases h
    exact ⟨stack, rfl, .done stack⟩
  | cons l run ih =>
    by_cases hn : stack = [] ∧ EndsBraces l.kind
    · rw [hn.1, List.map_cons, List.length_nil, depthAfter_ends hn.2] at h
      cases h
    · rw [List.map_cons, depthAfter_bracesAfter hn] at h
      obtain ⟨z, hz, hcarries⟩ := ih _ h
      exact ⟨z, hz, .take (fun c ls ha => queryBodyStep_past ha hn) hcarries⟩

/-- Reports the innermost brace that is not closed. -/
def closeBody : List Span → Rule Unit
  | [] => pure ()
  | opening :: _ => reportUnclosed .unclosedBody "brace opened here" opening

/-- It stays so where a query body is closed. -/
theorem closeBody_stays (stack : List Span) : Stays (closeBody stack) := by
  cases stack with
  | nil => exact fun _ h => h
  | cons opening outer => exact (Fails.reportUnclosed (P := fun _ => True) _ opening rfl).stays

/-- What is left of the source is read as a balanced query body. -/
theorem body_reads {S : Prop} : Reads S (fun o => o.ahead ≠ []) (repeatRule queryBodyStep [] >>= closeBody) (fun _ => true)
    (.run fun ks => ks ≠ [] ∧ Balanced .braceOpen .braceClose ks) (· = none) := by
  refine .of_past ((Stays.repeatRule queryBodyStep_stays _).bind closeBody_stays) fun c hc hne => ?_
  have hbuilds : ∀ ts o, (Form.run fun ks => ks ≠ [] ∧ Balanced .braceOpen .braceClose ks).Builds c.outlook ts o → o.head = none →
      Balanced .braceOpen .braceClose (c.ahead.map (·.kind)) ∧ ts = leavesFor (c.ahead.flatMap Lexeme.tokens) ∧
        o = ⟨[], c.tail, reachedBy c.reached c.ahead⟩ := by
    intro ts o hb ho
    rw [Reading.outlook] at hb
    generalize hco : (⟨c.ahead, c.tail, c.reached⟩ : Outlook) = p at hb
    cases hb with
    | @run _ run ls tail reached hv =>
      injection hco with hra htail hreached
      subst htail hreached
      cases ls with
      | cons l ls => cases ho
      | nil =>
        rw [List.append_nil] at hra
        rw [hra]
        exact ⟨hv.2, rfl, rfl⟩
  rcases depthAfter_split (· = .braceOpen) (· = .braceClose) (fun _ => false) 0 c.ahead with ⟨m, hm⟩ | ⟨run, l, rest, ha, hr, hl⟩
  · -- Every brace that closes was opened, so the loop goes on to the end, and what is open there decides.
    obtain ⟨z, hz, hcarries⟩ := queryBodyStep_carries [] hm
    have hnil : c.ahead = c.ahead ++ [] := (List.append_nil c.ahead).symm
    obtain ⟨d, hloop, hd⟩ := hcarries.loop (c := c) rfl hnil
    obtain ⟨e, he, hed⟩ := queryBodyStep_done z (congrArg Reading.ahead hd)
    have hrun : (repeatRule queryBodyStep [] >>= closeBody) c = closeBody z e := by rw [bind_run, hloop, repeatRule_done he]
    rw [hrun]
    cases z with
    | nil =>
      have hm0 : m = 0 := hz.symm
      subst hm0
      refine .inr ⟨_, c.ahead, [], hnil, .nil, rfl, hed.trans hd, ?_, fun us o hb ho => (hbuilds us o hb ho).2⟩
      have hb : (Form.run fun ks => ks ≠ [] ∧ Balanced .braceOpen .braceClose ks).Builds ⟨c.ahead ++ [], c.tail, c.reached⟩ _
          ⟨[], c.tail, reachedBy c.reached c.ahead⟩ := .run _ _ _ ⟨fun hn => hne (List.map_eq_nil_iff.mp hn), hm⟩
      rwa [← hnil] at hb
    | cons opening outer =>
      refine .inl ⟨(Fails.reportUnclosed (P := fun _ => True) _ opening rfl).error e ((hed.trans hd) ▸ hc.past _ hnil .nil) trivial, ?_⟩
      intro ts o hb ho
      have hm0 : some 0 = some m := (hbuilds ts o hb ho).1.symm.trans hm
      cases hm0
      cases hz
  · -- A brace closes that was not opened.
    obtain ⟨z, hz, hcarries⟩ := queryBodyStep_carries [] hr
    obtain rfl : z = [] := List.length_eq_zero_iff.mp hz
    obtain ⟨d, hloop, hd⟩ := hcarries.loop (c := c) rfl ha
    have hk : l.kind = .braceClose := of_decide_eq_true (hl.2.resolve_right Bool.false_ne_true)
    refine .inl ⟨closeBody_stays _ _ ?_, fun ts o hb ho => depthAfter_all ha hl (hbuilds ts o hb ho).1 hr⟩
    rw [hloop]
    have hal := hc.aligned
    rw [ha] at hal
    have hrest : Aligned (l :: rest) := (Within.behind (.outside hal)).aligned (hk ▸ rfl)
    exact repeatRule_error queryBodyStep_stays (queryBodyStep_error (hd ▸ hc.past _ ha hrest) (congrArg Reading.ahead hd) hk)

/-- A query body is read as one up to the end of the source. -/
theorem queryBody_reads {S : Prop} {P : Outlook → Prop} : Reads S P queryBody (fun _ => true) .queryBody (· = none) := by
  refine .look nextKind_looks.keeps fun _ => .look atEnd_looks.keeps fun b => .ite (fun hb => ?_) fun hb => ?_
  · refine (Reads.pure rfl).second ?_
    rintro o ts o' ⟨-, h⟩ hbuilds -
    cases hbuilds with
    | node hbuilds =>
      have hn : o.placed.ahead = [] := (Outlook.tail_placed (h.mp hb)).1
      generalize o.placed = p at hbuilds hn
      cases hbuilds with
      | run _ _ _ hv => exact hv.1 (by rw [(List.append_eq_nil_iff.mp hn).1]; rfl)
  · refine (Reads.node .queryBody body_reads ?_).first ?_
    · rintro o ⟨-, h⟩ hn
      have ha : o.ahead = [] := List.length_eq_zero_iff.mp (o.length_placed.symm.trans (congrArg List.length hn))
      rw [h.mpr ha] at hb
      cases hb
    · rintro o ts o' ⟨-, h⟩ hbuilds ho
      cases hbuilds
      obtain ⟨_ | ⟨l, ls⟩, tail, reached⟩ := o
      · rw [h.mpr rfl] at hb
        cases hb
      · cases ho

end QueryStubs.Grammar
