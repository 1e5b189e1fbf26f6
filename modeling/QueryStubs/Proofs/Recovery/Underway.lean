import QueryStubs.Proofs.Lenient.Yields
import QueryStubs.Proofs.Opaque.Spelling
import QueryStubs.Proofs.Parsed
import QueryStubs.Proofs.Reports.Declarations
import QueryStubs.Proofs.Reports.Places
import QueryStubs.Proofs.Segments.Alone

/-!
# Where the prolog of a source is read

What is left of a source while it is read was cut from tokens of the scanner, and every run keeps it so (`Run.underway`). At one such place
the reading of every source comes to the prolog (`Parsed.prolog_read`), so what is true of the loop over declarations from any such place on
is true of the prolog of every source.
-/

namespace QueryStubs

open Grammar
open QueryStubs.Tree (leavesOf constructs)

namespace Grammar

/-! ## Places in a source -/

/-- A reading as it is anywhere in a source: what is ahead is in order, and it was cut from tokens of the scanner. -/
structure Reading.Underway (s : Reading) : Prop where
  ordered : s.Ordered
  scanned : s.outlook.Scanned
  cut : ∃ offset, Lexeme.split offset [] s.left = (s.ahead, s.tail)

/-- The reading of a source starts at such a place. -/
theorem start_underway (source : String) : (Cursor.start source).Underway :=
  ⟨start_ordered source, (start_scanned source).1, 0, by rw [start_left]; rfl⟩

/-- Trivia stay where they belong. -/
theorem Run.lexical {c d : Cursor} (h : Run c d) (ho : c.outlook.Lexical) : d.outlook.Lexical := by
  induction h with
  | refl => exact ho
  | look _ _ ih | report _ _ _ ih | bindPrefix _ _ ih | build _ _ ih => exact ih ho
  | @take c d l ls t _ ha _ ih =>
    have hd := ih ho
    rw [Reading.outlook, ha] at hd
    exact hd.tail_cons
  | @placeTrivia c d _ ih =>
    rw [outlook_placeTrivia]
    exact (ih ho).placed
  | node _ _ _ ih ih' => exact ih' (ih ho)

/-- In every run what is left stays cut. -/
theorem Run.cut {c d : Cursor} (h : Run c d) (hc : ∃ offset, Lexeme.split offset [] c.left = (c.ahead, c.tail)) :
    ∃ offset, Lexeme.split offset [] d.left = (d.ahead, d.tail) := by
  induction h with
  | refl => exact hc
  | look _ _ ih | report _ _ _ ih | bindPrefix _ _ ih | build _ _ ih => exact ih hc
  | @take c d l ls t _ ha _ ih =>
    obtain ⟨offset, hcut⟩ := ih hc
    rw [ha] at hcut
    exact ⟨_, (split_behind hcut).2.2.2⟩
  | @placeTrivia c d _ ih =>
    obtain ⟨offset, hcut⟩ := ih hc
    unfold Reading.left Cursor.placeTrivia
    cases ha : d.ahead with
    | nil => exact ⟨offset, rfl⟩
    | cons l ls =>
      rw [ha] at hcut
      obtain ⟨-, hstop, htoken, hbehind⟩ := split_behind hcut
      refine ⟨l.span.start, ?_⟩
      have hleft : ({ l with lead := [] } :: ls).flatMap Lexeme.tokens ++ d.tail = l.token :: (ls.flatMap Lexeme.tokens ++ d.tail) := by
        simp [Lexeme.tokens]
      dsimp only
      rw [hleft, Lexeme.split, if_neg (by simp [htoken]), ← hstop, hbehind]
  | node _ _ _ ih ih' => exact ih' (ih hc)

/-- A token stands in the tree for the token that it was. -/
theorem asScanned_of_recorded {t u : Token} (h : t.Recorded u) (ht : t.kind ≠ .keyword) : u.asScanned = t := by
  rcases h with rfl | ⟨hn, rfl⟩
  · exact if_neg ht
  · rw [Token.asScanned, if_pos (by rfl), Token.ofName, Token.text_asKeyword, ← hn]

/-- What a run adds to the open construct are the tokens that were left before it and are not after it. -/
theorem Run.tokens {c d : Cursor} (h : Run c d) (hc : c.outlook.Scanned) :
    ∃ ts, d.parts = c.parts ++ ts ∧ c.left = tokensOf ts ++ d.left := by
  obtain ⟨ts, taken, hparts, hleft, hrecorded⟩ := h.conserves
  have hnames : ∀ t ∈ c.left, t.kind ≠ .keyword := hc.names
  have hscanned : ∀ {taken leaves : List Token}, List.Forall₂ Token.Recorded taken leaves → (∀ t ∈ taken, t.kind ≠ .keyword) →
      leaves.map Token.asScanned = taken := by
    intro taken leaves h hk
    induction h with
    | nil => rfl
    | cons h _ ih =>
      obtain ⟨ht, hk⟩ := List.forall_mem_cons.mp hk
      rw [List.map_cons, asScanned_of_recorded h ht, ih hk]
  have htokens : tokensOf ts = taken := by
    rw [tokensOf, ← hscanned hrecorded fun t ht => hnames t (hleft ▸ List.mem_append_left _ ht), Tree.leavesOf_eq_flatMap,
      List.map_flatMap]
    rfl
  exact ⟨ts, hparts, htokens ▸ hleft⟩

/-- Every run leads from such a place to such a place. -/
theorem Run.underway {c d : Cursor} (h : Run c d) (hc : c.Underway) : d.Underway := by
  obtain ⟨ts, -, hleft⟩ := h.tokens hc.scanned
  have hnames : ∀ t ∈ c.left, t.kind ≠ .keyword := hc.scanned.names
  rw [hleft] at hnames
  exact ⟨(h.ordered hc.ordered).1, ⟨h.lexical hc.scanned.lexical, (List.forall_mem_append.mp hnames).2⟩, h.cut hc.cut⟩

/-! ## The loop over declarations -/

/-- A place at which the loop over declarations can go on. -/
structure Cursor.AtDecl (first : Option Span) (c : Cursor) : Prop where
  underway : c.Underway
  aligned : c.outlook.Aligned
  forward : ∀ s ∈ first, s.Forward
  patient : 70 ≤ c.patience
  le_full : c.patience ≤ fullPatience

/-- What is true where no declaration comes next, and of a round more if it is true of the rounds behind it, is true of the loop. -/
theorem prologLoop_induction {M : Option Span → Cursor → Cursor → Prop}
    (last : ∀ {first c d}, Cursor.AtDecl first c → declAhead c.ahead = none → Cursor.toReading d = c.toReading → M first c d)
    (more : ∀ {first c late d e}, Cursor.AtDecl first c → prologStep first c = ((true, late), d) → M late d e → M first c e)
    (first : Option Span) (c : Cursor) (h : c.AtDecl first) : M first c (repeatRule prologStep first c).2 := by
  fun_induction repeatRule prologStep first c with
  | case1 first c b d hs =>
    obtain ⟨hnone, -, hd⟩ := prologStep_last hs
    exact last h hnone hd
  | case2 first c b d hs hlt ih =>
    obtain ⟨hr, hspent, hq⟩ := prologStep_safe first _ c h.underway.ordered ⟨⟨h.aligned, h.forward⟩, rfl⟩ h.patient h.le_full
    rw [hs] at hr hspent hq
    have hspent : fullPatience ≤ d.patience + 70 := hspent.2 hlt
    have hlarge : 70 + 70 ≤ fullPatience := by decide
    exact more h hs (ih ⟨hr.underway h.underway, hq.1.1, hq.1.2, by omega, hr.patience_le h.le_full⟩)
  | case3 first c b d hs hlt =>
    obtain ⟨-, -, hq⟩ := prologStep_safe first _ c h.underway.ordered ⟨⟨h.aligned, h.forward⟩, rfl⟩ h.patient h.le_full
    rw [hs] at hq
    exact absurd hq.2 hlt

/-! ## The parts of a module -/

/-- A place at which the declarations of a prolog can be read. -/
structure Cursor.AtProlog (c : Cursor) : Prop where
  underway : c.Underway
  aligned : c.outlook.Aligned
  patient : 140 ≤ c.patience
  le_full : c.patience ≤ fullPatience
  empty : c.parts = []

/-- The loop starts there. -/
theorem Cursor.AtProlog.atDecl {c : Cursor} (h : c.AtProlog) : c.AtDecl none :=
  ⟨h.underway, h.aligned, nofun, Nat.le_trans (by decide) h.patient, h.le_full⟩

/-- The reading comes from a place to another, and what is reported on the way is accounted for. -/
structure Cursor.Comes (c d : Cursor) : Prop where
  leads : c.account.Leads d.account
  stands : ∀ {tokens}, c.Stands tokens → d.Stands tokens

/-- A run that is accounted for is such a way. -/
theorem Run.comes {c d e : Cursor} (h : Run c d) (hl : c.account.Leads d.account) (he : d.Comes e) : c.Comes e :=
  ⟨hl.trans he.leads, fun hs => he.stands (h.stands hs)⟩

/-- From every place that a safe rule may start from, the rule comes to a prolog, and it adds nothing else of this kind before it does. What
it reports before and behind the prolog is accounted for. -/
def Prologues (n : Nat) (P : Outlook → Prop) (r : Rule α) : Prop :=
  ∀ c : Cursor, c.Underway → P c.outlook → n ≤ c.patience → c.patience ≤ fullPatience → ∃ front e behind, Cursor.AtProlog e ∧ c.Comes e ∧
    (r c).2.parts = c.parts ++ (front ++ .node .prolog (prologDecls e).2.parts :: behind) ∧ (∀ x ∈ constructs front, x.1 ≠ .prolog) ∧
      (prologDecls e).2.left = tokensOf behind ++ (r c).2.left ∧ (prologDecls e).2.account.Rests (r c).2.account

namespace Prologues

variable {n m : Nat} {P Q : Outlook → Prop}

/-- More may be assumed, and the bound may be raised. -/
theorem imp {r : Rule α} (h : Prologues n P r) (hn : n ≤ m) (hP : ∀ o, Q o → P o) : Prologues m Q r :=
  fun c hu hq hm hf => h c hu (hP _ hq) (Nat.le_trans hn hm) hf

theorem ite {b : Bool} {x y : Rule α} (hx : b = true → Prologues n P x) (hy : b = false → Prologues n P y) :
    Prologues n P (if b = true then x else y) := by
  cases b with
  | true => exact hx rfl
  | false => exact hy rfl

/-- A rule that adds no prolog may come first. -/
theorem behind (n m : Nat) {x : Rule α} {k : α → Rule β} {R : α → Outlook → Prop} (hs : Safe n P x R) (hx : Adds x (·.1 ≠ .prolog))
    (ht : ∀ c : Cursor, c.account.Leads (x c).2.account) (hk : ∀ a, Prologues m (R a) (k a)) : Prologues (n + m) P (x >>= k) := by
  intro c hu hp hn hf
  obtain ⟨hr, hspent, hq⟩ := hs c hu.ordered hp (by omega) hf
  obtain ⟨ts, hts, hnone⟩ := hx c
  obtain ⟨us, e, vs, he, hcomes, hus, hnone', hleft, hrests⟩ :=
    hk _ _ (hr.underway hu) hq (by have := hspent.1; omega) (hr.patience_le hf)
  refine ⟨ts ++ us, e, vs, he, hr.comes (ht c) hcomes, by rw [bind_run, hus, hts]; simp, ?_, hleft, hrests⟩
  rw [Tree.constructs_append]
  exact List.forall_mem_append.mpr ⟨hnone, hnone'⟩

/-- So may a look. -/
theorem look (n m : Nat) {x : Rule α} {A : α → Outlook → Prop} {k : α → Rule β} (hx : Looks n x A)
    (hk : ∀ a, Prologues m (fun o => P o ∧ A a o) (k a)) : Prologues (n + m) P (x >>= k) :=
  behind n m hx.safe (.of_keeps hx.keeps) (fun c _ hb => (hx.tells (P := fun _ => True) c hb trivial).1) hk

/-- A declaration with its semicolon may come first too. -/
theorem decl (n m : Nat) {kind : NodeKind} {r : Rule Bool} {k : Bool → Rule β} {R : Bool → Outlook → Prop} (hkind : kind ≠ .prolog)
    (hs : Safe n P (declaration kind r) R) (hr : ∀ {B}, TakesFirst B (fun _ => True) r) (hk : ∀ a, Prologues m (R a) (k a)) :
    Prologues (n + m) P (declaration kind r >>= k) :=
  behind n m hs (.node kind _ fun _ => hkind) (fun _ _ hb => (Told.refl _).advance.trans (declaration_told kind hr hb).1) hk

/-- Every safe rule may follow that is accounted for. -/
theorem before (n m : Nat) {x : Rule α} {k : α → Rule β} {R : α → Outlook → Prop} {Q : β → Outlook → Prop} (hs : Safe n P x R)
    (hx : Prologues n P x) (hk : ∀ a, Safe m (R a) (k a) Q) (ht : ∀ a (c : Cursor), c.account.Rests (k a c).2.account) :
    Prologues (n + m) P (x >>= k) := by
  intro c hu hp hn hf
  obtain ⟨hr, hspent, hq⟩ := hs c hu.ordered hp (by omega) hf
  obtain ⟨us, e, vs, he, hcomes, hus, hnone, hleft, hrests⟩ := hx c hu hp (by omega) hf
  obtain ⟨hr', -⟩ := hk _ _ (hr.ordered hu.ordered).1 hq (by have := hspent.1; omega) (hr.patience_le hf)
  obtain ⟨ts, hts, hleft'⟩ := hr'.tokens (hr.underway hu).scanned
  refine ⟨us, e, vs ++ ts, he, hcomes, by rw [bind_run, hts, hus]; simp, hnone, ?_, hrests.trans (ht _ _)⟩
  rw [tokensOf_append, List.append_assoc, bind_run, ← hleft']
  exact hleft

/-- A prolog is read inside its node. -/
theorem leadNode : Prologues 140 Outlook.Aligned (nodeWithLead .prolog prologDecls) := fun c hu ha hp hf =>
  ⟨[], c.startNode .prolog, [], ⟨⟨hu.ordered, hu.scanned, hu.cut⟩, ha, hp, hf, rfl⟩, ⟨fun _ _ => .refl _, fun h => h⟩, rfl,
    List.forall_mem_nil _, rfl, fun _ _ => .refl _, fun _ => rfl⟩

/-- So it is if the trivia in front of it do not belong to it. -/
theorem node : Prologues 140 Outlook.Aligned (node .prolog prologDecls) := by
  have hplace : Adds placeTrivia (·.1 ≠ .prolog) := fun c => ⟨leavesFor c.outlook.trivia, parts_placeTrivia c, by simp⟩
  have htells : ∀ c : Cursor, c.account.Leads (placeTrivia c).2.account := fun c B _ => account_placeTrivia c ▸ .refl _
  exact (behind 0 140 (placeTrivia_safe (Q := fun _ => Outlook.Aligned)) hplace htells fun _ => leadNode).imp (Nat.le_refl 140)
    fun _ h => Outlook.Aligned.placed h

end Prologues

theorem libraryModule_prologues : Prologues 166 (Outlook.Names 2) libraryModule := by
  refine .decl 25 141 (by decide) (declaration_safe .moduleDecl moduleDecl_safe).safe moduleDecl_takesFirst fun _ => ?_
  refine .ite (fun _ => ?_) fun _ => ?_
  · exact .before 140 1 (nodeWithLead_safe .prolog prologDecls_safe) .leadNode (fun _ => libraryTail_safe) fun _ => libraryTail_rests
  · exact .before 140 1 (node_safe .prolog prologDecls_safe fun _ h => Outlook.Aligned.placed h) .node (fun _ => libraryTail_safe)
      fun _ => libraryTail_rests

theorem mainModule_prologues : Prologues 143 Outlook.Aligned mainModule :=
  .before 140 3 (node_safe .prolog prologDecls_safe fun _ h => Outlook.Aligned.placed h) .node (fun _ => queryBody_safe) fun _ => queryBody_rests

/-- Inside the node that is made of a whole module a prolog is read. -/
theorem insideModule_prologues : Prologues 198 Outlook.Aligned (do
    if ← seesVersionDecl then
      let _ ← declaration .versionDecl versionDecl
    if ← seesModuleDecl then libraryModule else mainModule
    eatTrivia) := by
  have heat : ∀ {P : Outlook → Prop}, Safe 0 P eatTrivia fun _ _ => True := eatTrivia_safe.of_imp fun _ _ => trivial
  have hrests : ∀ c : Cursor, c.account.Rests (eatTrivia c).2.account := fun c =>
    ⟨fun _ _ => account_placeTrivia c ▸ .refl _, fun _ => account_placeTrivia c⟩
  have hrest : Prologues 168 Outlook.Aligned (do
      if ← seesModuleDecl then libraryModule else mainModule
      eatTrivia) := by
    refine .look 2 166 seesModuleDecl_looks fun _ => .ite (fun hb => ?_) fun _ => ?_
    · refine (Prologues.before 166 0 libraryModule_safe libraryModule_prologues (fun _ => heat) fun _ => hrests).imp (Nat.le_refl 166)
        fun o h => ?_
      exact ⟨h.1, names_of_module (h.2.mp hb)⟩
    · exact (Prologues.before 143 0 mainModule_safe mainModule_prologues (fun _ => heat) fun _ => hrests).imp (by decide) fun _ h => h.1
  refine .look 3 195 seesVersionDecl_looks fun _ => .ite (fun hb => ?_) fun _ => hrest.imp (by decide) fun _ h => h.1
  refine (Prologues.decl 27 168 (by decide) (declaration_safe .versionDecl versionDecl_safe).safe versionDecl_takesFirst
    fun _ => hrest).imp (Nat.le_refl 195) fun o h => ?_
  exact ⟨h.1, fun i hi => by rw [Nat.lt_one_iff.mp hi]; exact (h.2.mp hb).1.kindAt⟩

end Grammar

namespace Parsed

/-- The tokens of a source are those of its tree. -/
theorem tokens_ofSource (source : String) : Token.ofSource source = (ofSource source).tree.tokens := by
  obtain ⟨hr, hdone⟩ := whole_run source
  obtain ⟨ts, hts, hleft⟩ := hr.tokens (start_scanned source).1
  have htree : ts = [(ofSource source).tree] := hts.symm.trans (tree_ofSource source)
  rw [start_left, hdone, htree, List.append_nil, tokensOf_cons, tokensOf_nil, List.append_nil] at hleft
  exact hleft

/-- The reading of every source comes to a prolog, which becomes the first of its tree, and all that is reported before and behind it is
accounted for. -/
theorem prolog_told (source : String) : ∃ front e behind, Cursor.AtProlog e ∧ (Cursor.start source).Comes e ∧
    (ofSource source).tree = .node .root (front ++ .node .prolog (prologDecls e).2.parts :: behind) ∧
      (∀ x ∈ constructs front, x.1 ≠ .prolog) ∧ (prologDecls e).2.left = tokensOf behind ∧
        (prologDecls e).2.account.Rests (wholeModule (.start source)).2.account := by
  obtain ⟨front, e, behind, he, hcomes, hparts, hnone, hleft, hrests⟩ :=
    insideModule_prologues ((Cursor.start source).startNode .root) (start_underway source) (start_aligned source)
      (by decide : 198 ≤ fullPatience) (Nat.le_refl _)
  have hwhole : (wholeModule (.start source)).2.parts = [.node .root (front ++ .node .prolog (prologDecls e).2.parts :: behind)] :=
    congrArg (fun ts => [Tree.node .root ts]) hparts
  have htree := List.singleton_inj.mp ((tree_ofSource source).symm.trans hwhole)
  have hdone : (wholeModule (.start source)).2.left = [] := (whole_run source).2
  have hleft : (prologDecls e).2.left = tokensOf behind ++ (wholeModule (.start source)).2.left := hleft
  rw [hdone, List.append_nil] at hleft
  exact ⟨front, e, behind, he, ⟨hcomes.leads, fun h => hcomes.stands h⟩, htree, hnone, hleft, hrests⟩

/-- The reading of every source comes to a prolog, which becomes the first of its tree. -/
theorem prolog_read (source : String) : ∃ front e behind, Cursor.AtProlog e ∧
    (ofSource source).tree = .node .root (front ++ .node .prolog (prologDecls e).2.parts :: behind) ∧
      (∀ x ∈ constructs front, x.1 ≠ .prolog) ∧ (prologDecls e).2.left = tokensOf behind := by
  obtain ⟨front, e, behind, he, -, htree, hnone, hleft, -⟩ := prolog_told source
  exact ⟨front, e, behind, he, htree, hnone, hleft⟩

end Parsed

end QueryStubs
