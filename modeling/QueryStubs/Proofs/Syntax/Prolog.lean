import QueryStubs.Proofs.Syntax.Setters

/-!
# Reading prologs

Which declaration comes next is decided by the words it starts with: a reader sees a declaration of a kind just where the words of
that kind come next (`declAhead_iff`). So in each round of the loop the form that is left is the next declaration and what is left
then, or nothing (`decls_iff`). A setter behind another declaration is read without a report if it is complete, and then reported.
-/

namespace QueryStubs.Grammar

open QueryStubs

variable {S : Prop} {P : Outlook → Prop} {F : Option Token → Prop}

/-! ## Leading words -/

/-- One word and then another come next. -/
theorem words_two {o : Outlook} {a b : String} (ha : o.WordAt 0 a) (hb : o.WordAt 1 b) : o.Words [[a], [b]] := by
  intro i ws h
  match i with
  | 0 =>
    cases h
    exact ⟨a, List.mem_singleton.mpr rfl, ha⟩
  | 1 =>
    cases h
    exact ⟨b, List.mem_singleton.mpr rfl, hb⟩
  | i + 2 => cases h

/-- Two words and then one of some words come next. -/
theorem words_three {o : Outlook} {a b w : String} {ws : List String} (ha : o.WordAt 0 a) (hb : o.WordAt 1 b) (hw : o.WordAt 2 w)
    (hm : w ∈ ws) : o.Words [[a], [b], ws] := by
  intro i vs h
  match i with
  | 0 =>
    cases h
    exact ⟨a, List.mem_singleton.mpr rfl, ha⟩
  | 1 =>
    cases h
    exact ⟨b, List.mem_singleton.mpr rfl, hb⟩
  | 2 =>
    cases h
    exact ⟨w, hm, hw⟩
  | i + 3 => cases h

/-- A kind of declaration that a prolog may have. -/
def IsDecl (kind : NodeKind) : Prop := kind ∈ Form.setterKinds ∨ kind ∈ Form.otherKinds

/-- What is recognised as an import has its words. -/
theorem words_of_importKind {o : Outlook} (h0 : o.WordAt 0 "import") {kind : NodeKind} (hk : importKind (wordIn 1 o.ahead) = kind)
    (hd : kind ≠ .error) : IsDecl kind ∧ o.Words (Form.declWords kind) := by
  subst hk
  generalize h1 : wordIn 1 o.ahead = second at hd ⊢
  unfold importKind at hd ⊢
  split at hd
  · exact ⟨.inl (by decide), words_two h0 (wordAt_iff.mpr h1)⟩
  · exact ⟨.inl (by decide), words_two h0 (wordAt_iff.mpr h1)⟩
  · exact absurd rfl hd

/-- What is recognised as the declaration of a default has its words. -/
theorem words_of_defaultKind {o : Outlook} (h0 : o.WordAt 0 "declare") (h1 : o.WordAt 1 "default") {kind : NodeKind}
    (hk : defaultKind (wordIn 2 o.ahead) = kind) (hd : kind ≠ .error) : IsDecl kind ∧ o.Words (Form.declWords kind) := by
  subst hk
  generalize h2 : wordIn 2 o.ahead = third at hd ⊢
  unfold defaultKind at hd ⊢
  split at hd
  · exact ⟨.inl (by decide), words_three h0 h1 (wordAt_iff.mpr h2) (by decide)⟩
  · exact ⟨.inl (by decide), words_three h0 h1 (wordAt_iff.mpr h2) (by decide)⟩
  · exact ⟨.inl (by decide), words_three h0 h1 (wordAt_iff.mpr h2) (by decide)⟩
  · exact ⟨.inl (by decide), words_three h0 h1 (wordAt_iff.mpr h2) (by decide)⟩
  · exact absurd rfl hd

/-- So has every other declaration. -/
theorem words_of_declareKind {o : Outlook} (h0 : o.WordAt 0 "declare") {kind : NodeKind}
    (hk : declareKind (wordIn 1 o.ahead) (wordIn 2 o.ahead) = kind) (hd : kind ≠ .error) :
    IsDecl kind ∧ o.Words (Form.declWords kind) := by
  by_cases hdefault : wordIn 1 o.ahead = some "default"
  · rw [hdefault] at hk
    exact words_of_defaultKind h0 (wordAt_iff.mpr hdefault) hk hd
  subst hk
  generalize h1 : wordIn 1 o.ahead = second at hd hdefault ⊢
  unfold declareKind at hd ⊢
  split at hd
  case h_3 => exact absurd rfl hdefault
  case h_11 => exact absurd rfl hd
  case h_8 | h_9 | h_10 => exact ⟨.inr (by decide), words_two h0 (wordAt_iff.mpr h1)⟩
  all_goals exact ⟨.inl (by decide), words_two h0 (wordAt_iff.mpr h1)⟩

/-- Where the words of a declaration come next, it is recognised by them. -/
theorem declAhead_of_words {o : Outlook} {kind : NodeKind} (hk : IsDecl kind) (hw : o.Words (Form.declWords kind)) :
    declAhead o.ahead = some kind := by
  have hword : ∀ i w, (Form.declWords kind)[i]? = some [w] → wordIn i o.ahead = some w := by
    intro i w h
    obtain ⟨v, hv, ha⟩ := hw i _ h
    rw [← List.mem_singleton.mp hv]
    exact wordAt_iff.mp ha
  have hcases := List.mem_append.mpr hk
  simp only [Form.setterKinds, Form.otherKinds, List.cons_append, List.nil_append, List.mem_cons, List.not_mem_nil, or_false] at hcases
  unfold declAhead
  rcases hcases with rfl | rfl | rfl | rfl | rfl | rfl | rfl | rfl | rfl | rfl | rfl | rfl | rfl | rfl
  case inr.inl =>
    obtain ⟨w, hm, ha⟩ := hw 2 _ rfl
    rw [hword 0 "declare" rfl, hword 1 "default" rfl, wordAt_iff.mp ha]
    simp only [List.mem_cons, List.not_mem_nil, or_false] at hm
    rcases hm with rfl | rfl <;> rfl
  all_goals rw [hword 0 _ rfl, hword 1 _ rfl]
  case inr.inr.inr.inl | inr.inr.inr.inr.inr.inr.inr.inl => rw [hword 2 _ rfl]; rfl
  all_goals rfl

/-- A declaration of a kind is seen just where its words come next. -/
theorem declAhead_iff {o : Outlook} {kind : NodeKind} (hd : kind ≠ .error) :
    declAhead o.ahead = some kind ↔ IsDecl kind ∧ o.Words (Form.declWords kind) := by
  refine ⟨fun h => ?_, fun h => declAhead_of_words h.1 h.2⟩
  unfold declAhead at h
  split at h
  · next h0 => exact words_of_importKind (wordAt_iff.mpr h0) (Option.some.inj h) hd
  split at h
  · next h0 => exact words_of_declareKind (wordAt_iff.mpr h0) (Option.some.inj h) hd
  · cases h

/-! ## What is left of a prolog -/

/-- Behind a word that is taken the next words come. -/
theorem wordAt_behind {words : List String} {o o' : Outlook} {ts : List Tree} {i : Nat} {word : String}
    (hb : (Form.keyword words).Builds o ts o') : o'.WordAt i word ↔ o.WordAt (i + 1) word := by
  cases hb
  exact Iff.rfl

/-- Placing trivia does not change which words are ahead. -/
theorem Outlook.wordAt_placed {o : Outlook} {i : Nat} {word : String} : o.placed.WordAt i word ↔ o.WordAt i word := by
  obtain ⟨_ | ⟨l, ls⟩, tail, reached⟩ := o
  · exact Iff.rfl
  · cases i <;> exact Iff.rfl

theorem Outlook.words_placed {o : Outlook} {wss : List (List String)} : o.placed.Words wss ↔ o.Words wss := by
  simp only [Outlook.Words, Outlook.wordAt_placed]

/-- What starts with words has them next. -/
theorem words_of_keywords {wss : List (List String)} {o o' : Outlook} {ts : List Tree} (hb : (Form.keywords wss).Builds o ts o') :
    o.Words wss := by
  induction wss generalizing o ts with
  | nil => exact fun i ws h => nomatch h
  | cons ws wss ih =>
    cases hb with
    | seq hfirst hrest =>
      intro i vs h
      match i with
      | 0 =>
        cases h
        cases hfirst with
        | keyword ls tail reached hn hw => exact ⟨_, hw, Outlook.wordAt_zero.mpr (isWord_some.mpr ⟨hn, rfl⟩)⟩
      | i + 1 =>
        obtain ⟨w, hm, hw⟩ := ih hrest i vs h
        exact ⟨w, hm, (wordAt_behind hfirst).mp hw⟩

/-- A declaration starts with its words. -/
theorem words_of_declared {k : NodeKind} {wss : List (List String)} {f : Form} {o o' : Outlook} {ts : List Tree}
    (hb : (Form.declared k (.seq (.keywords wss) f)).Builds o ts o') : o.Words wss := by
  cases hb with
  | node hb =>
    cases hb with
    | seq hb =>
      cases hb with
      | seq hb => exact Outlook.words_placed.mp (words_of_keywords hb)

/-- One of several forms is built where one of them is. -/
theorem Form.anyOf_iff {fs : List Form} {o o' : Outlook} {ts : List Tree} :
    (Form.anyOf fs).Builds o ts o' ↔ ∃ f ∈ fs, f.Builds o ts o' := by
  induction fs with
  | nil =>
    refine ⟨fun h => ?_, fun ⟨f, hf, _⟩ => nomatch hf⟩
    cases h with
    | one _ _ _ h => cases h
  | cons f fs ih =>
    constructor
    · intro h
      cases h with
      | first h => exact ⟨f, List.mem_cons_self .., h⟩
      | second h =>
        obtain ⟨g, hg, h⟩ := ih.mp h
        exact ⟨g, List.mem_cons_of_mem _ hg, h⟩
    · rintro ⟨g, hg, h⟩
      rcases List.mem_cons.mp hg with rfl | hg
      · exact .first h
      · exact .second (ih.mpr ⟨g, hg, h⟩)

theorem Form.declOf_iff {kinds : List NodeKind} {o o' : Outlook} {ts : List Tree} :
    (Form.declOf kinds).Builds o ts o' ↔ ∃ kind ∈ kinds, (Form.declared kind (.declBody kind)).Builds o ts o' := by
  rw [Form.declOf, Form.anyOf_iff]
  simp

/-- Nothing, where no declaration comes next. -/
def Form.ended : Form := .guard (¬ StartsDecl ·) .nothing

/-- What is left of a prolog, before or behind its first declaration that is not a setter. -/
def Form.decls : Bool → Form
  | false => .seq .prolog .ended
  | true => .seq (.many (.declOf otherKinds)) .ended

/-- A token ahead is a word where the lexeme is. -/
theorem isWordAt_iff {o : Outlook} {i : Nat} {word : String} : IsWordAt i word (o.ahead.map (·.token)) ↔ o.WordAt i word := by
  unfold IsWordAt Outlook.WordAt
  rw [List.getElem?_map, Option.any_map]
  rfl

/-- A declaration comes next where one is seen. -/
theorem startsDecl_iff {o : Outlook} : StartsDecl (o.ahead.map (·.token)) ↔ declAhead o.ahead ≠ none := by
  rw [StartsDecl, isWordAt_iff, isWordAt_iff, wordAt_iff, wordAt_iff]
  unfold declAhead
  split
  · next h => simp [h]
  · next h =>
    split
    · next h => simp [h]
    · next h' => simp [h, h']

/-- What is left of a prolog is nothing or a declaration and then the rest. -/
theorem decls_cases {late : Bool} {o o' : Outlook} {ts : List Tree} (h : (Form.decls late).Builds o ts o') :
    (declAhead o.ahead = none ∧ ts = [] ∧ o' = o) ∨ ∃ kind, declAhead o.ahead = some kind ∧
      (kind ∈ Form.otherKinds ∨ kind ∈ Form.setterKinds ∧ late = false) ∧
        (Form.seq (.declared kind (.declBody kind)) (.decls (late || kind.isBodyDecl))).Builds o ts o' := by
  have hended : ∀ {o o' : Outlook} {ts : List Tree}, Form.ended.Builds o ts o' → declAhead o.ahead = none ∧ ts = [] ∧ o' = o := by
    intro o o' ts h
    cases h with
    | guard hT h =>
      cases h
      exact ⟨not_not.mp fun hn => hT (startsDecl_iff.mpr hn), rfl, rfl⟩
  have hothers : ∀ {o o' : Outlook} {ts : List Tree}, (Form.decls true).Builds o ts o' →
      (declAhead o.ahead = none ∧ ts = [] ∧ o' = o) ∨ ∃ kind, declAhead o.ahead = some kind ∧ kind ∈ Form.otherKinds ∧
        (Form.seq (.declared kind (.declBody kind)) (.decls true)).Builds o ts o' := by
    intro o o' ts h
    cases h with
    | seq hm he =>
      cases hm with
      | manyNil => exact .inl (hended he)
      | manyCons hx hrest =>
        obtain ⟨kind, hk, hx⟩ := Form.declOf_iff.mp hx
        rw [List.append_assoc]
        exact .inr ⟨kind, declAhead_of_words (.inr hk) (words_of_declared hx), hk, .seq hx (.seq hrest he)⟩
  cases late with
  | true =>
    refine (hothers h).imp id fun ⟨kind, hd, hk, h⟩ => ⟨kind, hd, .inl hk, h⟩
  | false =>
    cases h with
    | seq h he =>
      cases h with
      | seq hs ho =>
        cases hs with
        | manyNil =>
          refine (hothers (.seq ho he)).imp id fun ⟨kind, hd, hk, h⟩ => ⟨kind, hd, .inl hk, ?_⟩
          have hbody : ∀ kind ∈ Form.otherKinds, kind.isBodyDecl = true := by decide
          rw [hbody kind hk]
          exact h
        | manyCons hx hrest =>
          obtain ⟨kind, hk, hx⟩ := Form.declOf_iff.mp hx
          have hbody : ∀ kind ∈ Form.setterKinds, kind.isBodyDecl = false := by decide
          refine .inr ⟨kind, declAhead_of_words (.inl hk) (words_of_declared hx), .inr ⟨hk, rfl⟩, ?_⟩
          have hb : (Form.seq (.declared kind (.declBody kind)) (.decls false)).Builds o _ o' := .seq hx (.seq (.seq hrest ho) he)
          rw [hbody kind hk, Bool.or_false]
          simpa only [List.append_assoc] using hb

/-- A declaration and what is left then is what is left of a prolog, as long as no setter comes too late. -/
theorem decls_cons {late : Bool} {kind : NodeKind} {o o' : Outlook} {ts : List Tree}
    (hk : kind ∈ Form.otherKinds ∨ kind ∈ Form.setterKinds ∧ late = false)
    (h : (Form.seq (.declared kind (.declBody kind)) (.decls (late || kind.isBodyDecl))).Builds o ts o') :
    (Form.decls late).Builds o ts o' := by
  have hother : ∀ kind ∈ Form.otherKinds, kind.isBodyDecl = true := by decide
  have hsetter : ∀ kind ∈ Form.setterKinds, kind.isBodyDecl = false := by decide
  cases h with
  | seq hx h =>
    rcases hk with hk | ⟨hk, rfl⟩
    · rw [hother kind hk, Bool.or_true] at h
      cases h with
      | seq hrest he =>
        have hmany := Form.Builds.manyCons (Form.declOf_iff.mpr ⟨kind, hk, hx⟩) hrest
        rw [← List.append_assoc]
        cases late with
        | true => exact .seq hmany he
        | false =>
          have hb : (Form.decls false).Builds o _ o' := .seq (.seq (.manyNil o) hmany) he
          exact hb
    · rw [hsetter kind hk, Bool.or_false] at h
      cases h with
      | seq h he =>
        cases h with
        | seq hs ho =>
          have hb : (Form.decls false).Builds o _ o' := .seq (.seq (.manyCons (Form.declOf_iff.mpr ⟨kind, hk, hx⟩) hs) ho) he
          simpa only [List.append_assoc] using hb

/-! ## One declaration -/

theorem skipUntil_stays {stop : Rule Bool} {A : Bool → Outlook → Prop} (h : Keeps stop A) : Stays (skipUntil stop) := by
  have hstep : ∀ a, Stays (skipStep stop a) := by
    refine fun a => atEnd_looks.keeps.stays.bind fun b => ?_
    cases b with
    | true => exact fun _ h => h
    | false =>
      refine h.stays.bind fun b => ?_
      cases b with
      | true => exact fun _ h => h
      | false => exact take_stays.bind fun _ _ h => h
  refine atEnd_looks.keeps.stays.bind fun b => ?_
  cases b with
  | true => exact fun _ h => h
  | false =>
    refine h.stays.bind fun b => ?_
    cases b with
    | true => exact fun _ h => h
    | false => exact (Stays.repeatRule hstep ()).node .error

theorem skipToEnd_stays : Stays (skipUntil atRecovery >>= fun _ => accept .semicolon) :=
  (skipUntil_stays atRecovery_looks.keeps).bind fun _ => accept_stays .semicolon

/-- What is done behind the inside of a declaration, which is complete or not. -/
def declarationEnd (ok : Bool) : Rule Bool :=
  if ok = true then sees .semicolon >>= fun b => if b = true then accept .semicolon
    else report .expectedToken "`;` after declaration" >>= fun _ => skipUntil atRecovery >>= fun _ => accept .semicolon
  else skipUntil atRecovery >>= fun _ => accept .semicolon

/-- Behind the inside of a declaration its semicolon is read. -/
theorem declarationEnd_reads {r : Rule Bool} {f : Form} (h : Reads S P r id f (IsKind .semicolon)) :
    Reads S P (r >>= declarationEnd) id (.seq f (.mark .semicolon)) F := by
  refine .bind (Q := fun _ => True) h (fun _ _ _ _ _ => trivial) (fun b hb => ?_) (fun b hb => ?_) mark_leads
  · obtain rfl : b = true := hb
    exact .when (H := IsKind .semicolon) (sees_head .semicolon) (accept_reads rfl) mark_leads
      ((Fails.reportNext _ rfl).bind fun _ => skipToEnd_stays)
  · obtain rfl : b = false := hb
    exact skipToEnd_stays

/-- A declaration is read with its semicolon. -/
theorem declaration_reads {Q : Outlook → Prop} {kind : NodeKind} {r : Rule Bool} {f : Form} (h : Reads S Q r id f (IsKind .semicolon))
    (hP : ∀ o, P o → Q o.placed) : Reads S P (declaration kind r) id (.declared kind f) F :=
  .node kind (declarationEnd_reads h) hP

/-- That keeps errors. -/
theorem declarationEnd_stays (ok : Bool) : Stays (declarationEnd ok) := by
  cases ok with
  | false => exact skipToEnd_stays
  | true =>
    refine Stays.bind (sees_head .semicolon).stays fun b => ?_
    cases b with
    | true => exact accept_stays .semicolon
    | false => exact (Fails.reportNext (P := fun _ => True) _ rfl).stays.bind fun _ => skipToEnd_stays

theorem declaration_stays {r : Rule Bool} (kind : NodeKind) (h : Stays r) : Stays (declaration kind r) :=
  (h.bind declarationEnd_stays).node kind

/-- An error inside a declaration is not taken back. -/
theorem declaration_fails {Q : Outlook → Prop} {r : Rule Bool} (kind : NodeKind) (h : Fails Q r) (hP : ∀ o, P o → Q o.placed) :
    Fails P (declaration kind r) :=
  .node kind (h.bind declarationEnd_stays) hP

/-- The inside of a declaration of no known kind is an error. -/
theorem unknownDecl_fails : Fails (fun o => IsKind .name o.head) unknownDecl := by
  refine .look nextText_looks.keeps fun keyword => .behind (S := True) (Q := fun _ => True) (F := fun _ => True)
    (Reads.of_imp (Reads.takeWord (P := fun _ => True) (w := keyword)) fun o h => ⟨trivial, h.1.isWord h.2⟩)
    (fun _ _ _ _ _ => trivial) fun _ => .look (wordAt?_looks 0).keeps fun word => ?_
  cases word with
  | none => exact (Fails.reportNext _ rfl).bind fun _ _ h => h
  | some name =>
    refine (Fails.reportNext _ rfl).bind fun _ => take_stays.bind fun _ => onlyTriviaLeft_looks.keeps.stays.bind fun b => ?_
    cases b <;> exact fun _ h => h

/-! ## The loop over declarations -/

/-- What is done behind a declaration, before the next round. -/
def afterDecl (kind : NodeKind) (first : Option Span) (start : Nat) (again : Option Span → Rule α) : Rule α := do
  let stop := (← get).reached
  demand (start ≤ stop) .reversedSpan
  checkOrder kind ⟨start, stop⟩ first
  again (if kind.isBodyDecl then some (first.getD ⟨start, stop⟩) else first)

/-- A round of the loop, and what comes after it. -/
theorem prologStep_bind (first : Option Span) (again : Option Span → Rule (Option Span)) :
    (prologStep first >>= fun r => if r.1 = true then again r.2 else pure r.2) = (upcomingDecl >>= fun upcoming =>
      match upcoming with
      | none => pure first
      | some kind => nextSpan >>= fun span => declaration kind (declBody kind) >>= fun _ => afterDecl kind first span.start again) := by
  refine (bind_assoc _ _ _).trans (congrArg _ (funext fun upcoming => ?_))
  cases upcoming with
  | none => rfl
  | some kind => rfl

theorem checkOrder_stays (kind : NodeKind) (span : Span) (first : Option Span) : Stays (checkOrder kind span first) := by
  intro c h
  rcases checkOrder_run kind span first c with ⟨hrun, -⟩ | ⟨place, -, -, hrun⟩
  · rw [hrun]
    exact h
  · rw [hrun]
    exact addReport_hasError _ _ h

theorem afterDecl_stays (kind : NodeKind) (first : Option Span) (start : Nat) {again : Option Span → Rule α}
    (h : ∀ a, Stays (again a)) : Stays (afterDecl kind first start again) :=
  get_looks.keeps.stays.bind fun _ => (demand_keeps _ _).stays.bind fun _ => (checkOrder_stays _ _ _).bind fun _ => h _

/-- A declaration in its place is followed by the next round. -/
theorem afterDecl_reads {kind : NodeKind} {first : Option Span} (start : Nat) {again : Option Span → Rule α} {good : α → Bool}
    {f : Form} (hk : kind.isSetter = true → first = none)
    (h : ∀ a, a.isSome = (first.isSome || kind.isBodyDecl) → Reads S P (again a) good f F) :
    Reads S P (afterDecl kind first start again) good f F := by
  refine .of_imp (.look get_looks.keeps fun c => .look (demand_keeps _ _) fun _ => ?_) fun o hp => hp
  have hcheck : Keeps (checkOrder kind ⟨start, c.reached⟩ first) fun _ _ => True := by
    intro d
    unfold checkOrder
    cases first with
    | none => exact ⟨rfl, trivial⟩
    | some place =>
      have hn : kind.isSetter = false := by
        cases hs : kind.isSetter with
        | false => rfl
        | true => exact nomatch hk hs
      rw [hn]
      exact ⟨rfl, trivial⟩
  refine .look hcheck fun _ => (h _ ?_).of_imp fun o hp => hp.1.1.1
  cases kind.isBodyDecl <;> simp

/-- A setter behind another declaration is reported where it starts, unless a report was made there. -/
theorem afterDecl_error {kind : NodeKind} (place : Span) {start : Nat} {again : Option Span → Rule α} (hk : kind.isSetter = true)
    (h : ∀ a, Stays (again a)) {c : Cursor} (hl : c.lastReport ≠ some start) :
    (afterDecl kind (some place) start again c).2.HasError := by
  obtain ⟨e, d, he, hd, -⟩ := get_looks.keeps.peel (c := c) rfl fun e : Cursor => do
    demand (start ≤ e.reached) .reversedSpan
    checkOrder kind ⟨start, e.reached⟩ (some place)
    again (if kind.isBodyDecl then some ((some place).getD ⟨start, e.reached⟩) else some place)
  obtain ⟨-, d, he', hd, -⟩ := (demand_keeps (start ≤ e.reached) .reversedSpan).peel hd fun _ => do
    checkOrder kind ⟨start, e.reached⟩ (some place)
    again (if kind.isBodyDecl then some ((some place).getD ⟨start, e.reached⟩) else some place)
  have hrun : afterDecl kind (some place) start again c = _ := he.trans he'
  rw [hrun, bind_run]
  refine h _ _ ?_
  have hcheck : checkOrder kind ⟨start, e.reached⟩ (some place) = reportAt .misplacedDeclaration ⟨start, e.reached⟩ none
      [⟨"first function, variable or option declaration", place⟩] := if_pos hk
  rw [hcheck]
  exact addReport_error (fun hd' => hl ((congrArg Reading.lastReport hd).symm.trans hd')) rfl

/-- So a setter behind another declaration is an error, whether it is complete or not. -/
theorem lateSetter_fails {kind : NodeKind} (place : Span) {again : Option Span → Rule α} (hk : kind ∈ Form.setterKinds)
    (hP : ∀ o, P o → declAhead o.ahead = some kind) (h : ∀ a, Stays (again a)) :
    Fails P (nextSpan >>= fun span => declaration kind (declBody kind) >>= fun _ => afterDecl kind (some place) span.start again) := by
  have hall : ∀ kind ∈ Form.setterKinds, kind.isSetter = true ∧ kind ≠ .error := by decide
  obtain ⟨hsetter, hne⟩ := hall kind hk
  have hfunction : kind.isSetter = true → kind ≠ .functionDecl := by
    rintro hs rfl
    cases hs
  have hreads : Reads (kind.isSetter = true) P (declaration kind (declBody kind)) id (.declared kind (.declBody kind)) fun _ => True :=
    declaration_reads ((declBody_reads (.inl hk)).quieter hfunction) fun o hp => Outlook.words_placed.mpr ((declAhead_iff hne).mp (hP o hp)).2
  refine ⟨nextSpan_looks.keeps.stays.bind fun span => hreads.stays.bind fun _ => afterDecl_stays _ _ _ h, fun c hc hp => ?_⟩
  obtain ⟨span, d, he, hd, hspan⟩ := nextSpan_looks.keeps.peel (c := c) rfl fun span =>
    declaration kind (declBody kind) >>= fun _ => afterDecl kind (some place) span.start again
  have ho : d.outlook = c.outlook := congrArg Reading.outlook hd
  rw [he, bind_run]
  rcases hreads.sound d (hd ▸ hc) (ho ▸ hp) with herr | ⟨-, ts, hgrows⟩
  · exact afterDecl_stays _ _ _ h _ herr
  refine afterDecl_error place hsetter h fun hl => ?_
  have hl : c.lastReport = some span.start := by rw [← hl, (hgrows.silent hsetter).2.1, hd]
  have hlt := hc.last _ hl
  have hplace : span.start = c.nextPlace := by
    have hnames := names_of_declAhead (hP _ hp) 0 (leadingWords_pos kind)
    obtain ⟨l, ls, ha, -⟩ := hnames.cons
    rw [hspan l ls ha, Reading.nextPlace, show c.ahead = l :: ls from ha]
  exact Nat.lt_irrefl _ (hplace ▸ hlt)

/-- A declaration of any kind keeps errors. -/
theorem declBody_stays (kind : NodeKind) : Stays (declBody kind) := by
  by_cases hk : IsDecl kind
  · exact (declBody_reads hk).stays
  · have he : declBody kind = unknownDecl := by
      cases kind <;> first | rfl | exact absurd (by unfold IsDecl; decide) hk
    rw [he]
    exact unknownDecl_fails.stays

theorem prologStep_stays (first : Option Span) : Stays (prologStep first) := by
  refine upcomingDecl_looks.keeps.stays.bind fun upcoming => ?_
  cases upcoming with
  | none => exact fun _ h => h
  | some kind =>
    exact nextSpan_looks.keeps.stays.bind fun span => (declaration_stays kind (declBody_stays kind)).bind fun _ =>
      get_looks.keeps.stays.bind fun _ => (demand_keeps _ _).stays.bind fun _ => (checkOrder_stays _ _ _).bind fun _ _ h => h

/-- A declaration of no known kind is an error. -/
theorem unknownDeclaration_fails : Fails (fun o => declAhead o.ahead = some .error) (declaration .error (declBody .error)) := by
  refine declaration_fails .error (unknownDecl_fails : Fails _ (declBody .error)) fun o hp => ?_
  rw [Outlook.head_placed]
  exact Outlook.kindAt_zero.mp (names_of_declAhead hp 0 (leadingWords_pos .error))

/-- It is one wherever it stands. -/
theorem unknown_fails (hP : ∀ o, P o → declAhead o.ahead = some .error) {first : Option Span} {again : Option Span → Rule α}
    (h : ∀ a, Stays (again a)) :
    Fails P (nextSpan >>= fun span => declaration .error (declBody .error) >>= fun _ => afterDecl .error first span.start again) := by
  refine .look nextSpan_looks.keeps fun span => Fails.bind ⟨unknownDeclaration_fails.stays, fun c hc hp => ?_⟩ fun _ => afterDecl_stays _ _ _ h
  exact unknownDeclaration_fails.error c hc (hP _ hp.1)

/-- Where no declaration comes next, nothing is left of a prolog. -/
theorem decls_nil {late : Bool} {o : Outlook} (h : declAhead o.ahead = none) : (Form.decls late).Builds o [] o := by
  have hended : Form.ended.Builds o [] o := .guard (fun hs => startsDecl_iff.mp hs h) (.nothing o)
  have hothers : (Form.many (.declOf Form.otherKinds)).Builds o [] o := .manyNil o
  cases late with
  | true => exact .seq hothers hended
  | false => exact .seq (.seq (.manyNil o) hothers) hended

/-- The lexemes of a declaration are used up. -/
theorem declared_length_lt {kind : NodeKind} {f : Form} {o o' : Outlook} {ts : List Tree} (h : (Form.declared kind f).Builds o ts o') :
    o'.ahead.length < o.ahead.length := by
  cases h with
  | node h =>
    cases h with
    | seq hf hs => exact Nat.lt_of_lt_of_le hs.length_lt (Nat.le_trans hf.length_le (Nat.le_of_eq o.length_placed))

/-- A kind of declaration that is in its place. -/
def InPlace (late : Bool) (kind : NodeKind) : Prop := kind ∈ Form.otherKinds ∨ kind ∈ Form.setterKinds ∧ late = false

/-- A declaration that is not in its place is not part of a prolog. -/
theorem decls_inPlace {late : Bool} {kind : NodeKind} {o o' : Outlook} {ts : List Tree} (hd : declAhead o.ahead = some kind)
    (h : (Form.decls late).Builds o ts o') :
    InPlace late kind ∧ (Form.seq (.declared kind (.declBody kind)) (.decls (late || kind.isBodyDecl))).Builds o ts o' := by
  rcases decls_cases h with ⟨hn, -⟩ | ⟨k, hk, hplace, hb⟩
  · exact nomatch hn.symm.trans hd
  · obtain rfl : k = kind := Option.some.inj (hk.symm.trans hd)
    exact ⟨hplace, hb⟩

/-- A declaration in its place is read, and then the rest. -/
theorem declaration_then_reads {kind : NodeKind} {first : Option Span} {n : Nat} {again : Option Span → Rule α} {good : α → Bool}
    (hP : ∀ o, P o → declAhead o.ahead = some kind ∧ o.ahead.length = n) (hk : InPlace first.isSome kind)
    (hagain : ∀ a, Reads False (fun o => True ∧ o.ahead.length < n) (again a) good (.decls a.isSome) F) :
    Reads False P (nextSpan >>= fun span => declaration kind (declBody kind) >>= fun _ => afterDecl kind first span.start again) good
      (.decls first.isSome) F := by
  have hother : ∀ kind ∈ Form.otherKinds, kind ≠ .error ∧ kind.isSetter = false := by decide
  have hsetter : ∀ kind ∈ Form.setterKinds, kind ≠ .error := by decide
  have hne : kind ≠ .error := hk.elim (fun h => (hother kind h).1) fun h => hsetter kind h.1
  have hfirst : kind.isSetter = true → first = none := fun h => by
    rcases hk with hk | ⟨-, hn⟩
    · rw [(hother kind hk).2] at h
      cases h
    · exact Option.isSome_eq_false_iff.mp hn |> Option.isNone_iff_eq_none.mp
  have hdecl : Reads False P (declaration kind (declBody kind)) id (.declared kind (.declBody kind)) fun _ => True :=
    declaration_reads ((declBody_reads (hk.symm.imp And.left id)).quieter False.elim) fun o hp =>
      Outlook.words_placed.mpr ((declAhead_iff hne).mp (hP o hp).1).2
  have hafter : ∀ span : Span, Reads False (fun o => o.ahead.length < n) (afterDecl kind first span.start again) good
      (.decls (first.isSome || kind.isBodyDecl)) F := fun span =>
    afterDecl_reads _ hfirst fun a ha => ha ▸ (hagain a).of_imp fun _ h => ⟨trivial, h⟩
  refine .look nextSpan_looks.keeps fun span => Reads.conv (.bind (Q := fun o => o.ahead.length < n) (hdecl.of_imp fun _ h => h.1)
    (fun o ts o' hp hb => (hP o hp.1).2 ▸ declared_length_lt hb) (fun _ _ => hafter span) (fun _ _ => (hafter span).stays) (.any _))
    (fun o ts o' hp hb => decls_cons hk hb) fun o ts o' hp hb _ => (decls_inPlace (hP o hp.1).1 hb).2

theorem decls_reads : Reads False (fun _ => True) (repeatRule prologStep none) (fun _ => true) (.decls false) F := by
  refine .loop (L := fun first => .decls first.isSome) (Q := fun _ _ => True) prologStep_stays (fun first n again hagain => ?_) none
  rw [prologStep_bind]
  refine .look upcomingDecl_looks.keeps fun upcoming => ?_
  have hstays : ∀ a, Stays (again a) := fun a => (hagain a).stays
  cases upcoming with
  | none =>
    refine (Reads.pure rfl).conv (fun o ts o' hp hb => ?_) fun o ts o' hp hb _ => ?_
    · cases hb
      exact decls_nil hp.2.symm
    · rcases decls_cases hb with ⟨-, rfl, rfl⟩ | ⟨kind, hd, -⟩
      · exact .nothing _
      · exact nomatch hp.2.trans hd
  | some kind =>
    have hsome : ∀ o : Outlook, ((True ∧ o.ahead.length = n) ∧ some kind = declAhead o.ahead) → declAhead o.ahead = some kind :=
      fun o h => h.2.symm
    by_cases hk : InPlace first.isSome kind
    · exact declaration_then_reads (fun o h => ⟨hsome o h, h.1.2⟩) hk hagain
    by_cases hunknown : kind = .error
    · subst hunknown
      exact (unknown_fails hsome hstays).reads fun o ts o' hp hb _ => hk (decls_inPlace (hsome o hp) hb).1
    by_cases hlate : kind ∈ Form.setterKinds
    · cases first with
      | none => exact absurd (.inr ⟨hlate, rfl⟩) hk
      | some place => exact (lateSetter_fails place hlate hsome hstays).reads fun o ts o' hp hb _ => hk (decls_inPlace (hsome o hp) hb).1
    · refine .unused (nextSpan_looks.keeps.stays.bind fun span => (declaration_stays kind (declBody_stays kind)).bind fun _ =>
        afterDecl_stays _ _ _ hstays) fun o hp => ?_
      exact ((declAhead_iff hunknown).mp (hsome o hp)).1.elim hlate fun h => hk (.inl h)

end QueryStubs.Grammar
