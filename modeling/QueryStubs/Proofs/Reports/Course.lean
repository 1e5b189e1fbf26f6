import QueryStubs.Proofs.Reports.Order

/-!
# The course of a reading

A source is read in three stretches: its version declaration, if it has one (`Cursor.headed` is the place behind it), its module declaration,
if it has one, and its prolog with what follows. Where a declaration ends behind its semicolon, all that was reported starts before what
comes next (`Reading.Settled`). So it is behind every version declaration (`headed`) and behind every prolog (`Kept.settled_loop`).
-/

namespace QueryStubs

open Grammar
open QueryStubs.Tree (constructs leavesOf)

namespace Grammar

/-- Where a lexeme comes next that starts no declaration, all that was reported starts before it. -/
def Reading.Settled (s : Reading) : Prop :=
  s.ahead = [] ∨ (declAhead s.ahead).isSome = true ∨ ∀ r ∈ s.reports, r.span.start < s.account.next.start

/-- Placing trivia does not matter to that. -/
theorem settled_placeTrivia {c : Cursor} : c.placeTrivia.Settled ↔ c.Settled := by
  have hahead : c.placeTrivia.ahead = [] ↔ c.ahead = [] := by
    unfold Cursor.placeTrivia
    cases c.ahead <;> simp
  have hdecl : declAhead c.placeTrivia.ahead = declAhead c.ahead := by
    have hout : c.placeTrivia.ahead = c.outlook.placed.ahead := congrArg Outlook.ahead (outlook_placeTrivia c)
    rw [hout, declAhead_placed]
    rfl
  rw [Reading.Settled, Reading.Settled, hahead, hdecl, account_placeTrivia]
  rfl

/-- Neither does it to the length of what was read and of what is left. -/
theorem size_placeTrivia (c : Cursor) : Token.sizeOf (leavesOf c.placeTrivia.parts) + Token.sizeOf c.placeTrivia.left =
    Token.sizeOf (leavesOf c.parts) + Token.sizeOf c.left := by
  have hleaves : leavesOf (leavesFor c.outlook.trivia) = c.outlook.trivia := Tree.leavesOf_map_leaf _
  have hplaced : c.placeTrivia.left = c.outlook.placed.left := congrArg Outlook.left (outlook_placeTrivia c)
  have hleft : c.left = c.outlook.trivia ++ c.placeTrivia.left := hplaced ▸ c.outlook.left_placed
  rw [parts_placeTrivia, Tree.leavesOf_append, hleaves, hleft, Token.sizeOf_append, Token.sizeOf_append, Nat.add_assoc]

/-! ## The loop over declarations -/

section

variable {tokens : List Token} {offset : Nat} {first late : Option Span} {c d x : Cursor} {w : List Token} {kind : NodeKind} {us : List Tree}

/-- Every round of the loop ends so. -/
theorem Round.settled (h : Round first late c d x w kind us) (hs : c.Stands tokens) (hc : c.account.Steady)
    (hpos : ∀ t ∈ tokens, 0 < t.size) : d.Settled := by
  obtain ⟨hlt, hle, hnext⟩ := h.progress hs hc.ordered
  obtain ⟨-, hready⟩ := h.sound hs hc hpos
  have hahead : d.ahead = x.ahead := congrArg Outlook.ahead h.outlook
  rw [Reading.Settled, hahead, hnext]
  refine hready.imp_right fun hready => hready.imp_right fun hall => ?_
  rcases h.checked with ⟨hsame, -⟩ | ⟨place, -, -, htold⟩
  · have hreports : d.reports = x.reports := congrArg Account.reports hsame
    exact hreports ▸ fun r hr => (hall r hr).1
  · have hreports : d.reports = x.reports ++ [.misplaced ⟨c.nextSpan.start, d.reached⟩ place] := congrArg Account.reports htold
    rw [hreports]
    refine List.forall_mem_append.mpr ⟨fun r hr => (hall r hr).1, List.forall_mem_singleton.mpr ?_⟩
    rw [next_account] at hlt
    exact Nat.lt_of_lt_of_le hlt hle

/-- Behind the loop all that was reported starts before what comes next, if anything does. -/
theorem Kept.settled_loop (h : Kept tokens offset first c.toReading) (hc : c.AtDecl first) (hset : c.Settled)
    (hpos : ∀ t ∈ tokens, 0 < t.size) :
    (repeatRule prologStep first c).2.ahead = [] ∨
      ∀ r ∈ (repeatRule prologStep first c).2.reports, r.span.start < (repeatRule prologStep first c).2.account.next.start := by
  refine prologLoop_induction (M := fun first c d => Kept tokens offset first c.toReading → c.Settled →
    (d.ahead = [] ∨ ∀ r ∈ d.reports, r.span.start < d.account.next.start)) (fun {first c d} _ hnone hd _ hset => ?_)
      (fun {first c _ d e} hc hs hrest h _ => ?_) first c hc h hset
  · rw [hd]
    refine hset.imp_right fun hset => hset.resolve_left fun hsome => ?_
    rw [hnone] at hsome
    cases hsome
  · obtain ⟨_, _, _, _, hround⟩ := prologStep_round hc hs
    exact hrest (h.round hround hpos) (hround.settled h.stands h.steady hpos)

end

/-! ## Up to the module declaration -/

/-- The place behind the version declaration of a source, if it has one. -/
def Cursor.headed (source : String) : Cursor :=
  let (version, c) := seesVersionDecl ((Cursor.start source).startNode .root)
  if version then (declaration .versionDecl versionDecl c).2 else c

theorem headed_eq (source : String) : Cursor.headed source =
    if (seesVersionDecl ((Cursor.start source).startNode .root)).1 = true then
      (declaration .versionDecl versionDecl (seesVersionDecl ((Cursor.start source).startNode .root)).2).2
    else (seesVersionDecl ((Cursor.start source).startNode .root)).2 := rfl

/-- What is read from there on. -/
def afterVersion : Rule Unit := do
  if ← seesModuleDecl then libraryModule else mainModule
  eatTrivia

/-- A whole module is read up to there, and then the rest. -/
theorem wholeModule_eq (source : String) :
    (wholeModule (.start source)).2 = (afterVersion (.headed source)).2.finishNode .root [] := by
  have hrun : (wholeModule (.start source)).2 =
      (((seesVersionDecl >>= fun version => if version = true then declaration .versionDecl versionDecl >>= fun _ => afterVersion
        else afterVersion) ((Cursor.start source).startNode .root)).2).finishNode .root [] := rfl
  have hheaded : (seesVersionDecl >>= fun version => if version = true then declaration .versionDecl versionDecl >>= fun _ => afterVersion
      else afterVersion) ((Cursor.start source).startNode .root) = afterVersion (.headed source) := by
    rw [bind_run, Cursor.headed]
    generalize seesVersionDecl ((Cursor.start source).startNode .root) = seen
    obtain ⟨version, c⟩ := seen
    cases version <;> rfl
  rw [hrun, hheaded]

/-- What is known of that place. -/
structure Headed (source : String) (c : Cursor) : Prop where
  underway : c.Underway
  aligned : c.outlook.Aligned
  patient : 168 ≤ c.patience
  le_full : c.patience ≤ fullPatience
  comes : (Cursor.start source).Comes c
  settled : c.Settled
  fronts : ∀ x ∈ constructs c.parts, x.1 = .versionDecl
  place : Token.sizeOf (leavesOf c.parts) + Token.sizeOf c.left = Token.sizeOf (Token.ofSource source)

/-- A version declaration keeps a reading that has just started as it should be. -/
theorem versionDecl_headed {source : String} {c : Cursor} (hc : c.toReading = (Cursor.start source).toReading)
    (hpatient : 195 ≤ c.patience) (hfull : c.patience ≤ fullPatience) (hname : c.outlook.KindAt 0 .name) :
    Headed source (declaration .versionDecl versionDecl c).2 := by
  have hu : c.Underway := hc.symm ▸ start_underway source
  have hs : c.Stands (Token.ofSource source) := hc.symm ▸ start_stands source
  have hpos := Token.size_pos_of_scan source.toList
  have hnames : c.outlook.Names 1 :=
    ⟨hc.symm ▸ start_aligned source, fun i hi => by rw [Nat.lt_one_iff.mp hi]; exact hname⟩
  obtain ⟨hrun, hspent, haligned⟩ := (declaration_safe .versionDecl versionDecl_safe).safe c hu.ordered hnames
    (Nat.le_trans (by decide) hpatient) hfull
  have ho : c.account.Ordered := account_ordered.mpr hu.ordered
  have hsound : c.account.Sound := ho.sound (congrArg Reading.reports hc) (congrArg Reading.lastReport hc)
  have hne : c.account.ahead ≠ [] := fun hnil => by
    obtain ⟨l, ls, hl, -⟩ := hname.cons
    exact nomatch hl.symm.trans (ahead_account_eq_nil.mp hnil)
  obtain ⟨htold, hends⟩ := declaration_told .versionDecl versionDecl_takesFirst (hs.opens ho)
  obtain ⟨ts, hparts, hleft⟩ := hrun.tokens hu.scanned
  have hnode := parts_declaration .versionDecl versionDecl c
  have hnil : c.parts = [] := congrArg Reading.parts hc
  rw [hnil, List.nil_append] at hparts hnode
  refine ⟨hrun.underway hu, haligned, ?_, hrun.patience_le hfull, ⟨fun B hb => ?_, fun h => hrun.stands (hc.symm ▸ h)⟩, ?_, ?_, ?_⟩
  · have := hspent.1
    omega
  · have hsame : c.account = (Cursor.start source).account := congrArg Reading.account hc
    rw [← hsame] at hb ⊢
    exact (Told.refl _).advance.trans (declaration_told .versionDecl versionDecl_takesFirst hb).1
  · rcases hends with ⟨b, hb, hbne, hd⟩ | hend
    · have hbsound : b.Sound := hb.sound (hsound.steady.sound_advance hne).1 fun k s hbracket =>
        (hs.bracket_lt hpos hbracket.1).trans_eq (Account.limit_advance _).symm
      have hall := (hbsound.steady.sound_advance hbne).2
      rw [← hd] at hall
      exact .inr (.inr fun r hr => (hall r hr).1)
    · exact hend.imp_right .inl
  · rw [hnode]
    simp
  · rw [hparts, ← sizeOf_tokensOf, ← Token.sizeOf_append, ← hleft, hc]
    exact congrArg Token.sizeOf (start_left source)

/-- Every source is read up to there. -/
theorem headed (source : String) : Headed source (.headed source) := by
  obtain ⟨hrun, hspent, -⟩ := (seesVersionDecl_looks.safe (P := Outlook.Aligned)) ((Cursor.start source).startNode .root)
    (start_ordered source) (start_aligned source) (by decide : 3 ≤ fullPatience) (Nat.le_refl _)
  obtain ⟨hsame, hseen⟩ := seesVersionDecl_looks.keeps ((Cursor.start source).startNode .root)
  have hpatient : 195 ≤ (seesVersionDecl ((Cursor.start source).startNode .root)).2.patience := by
    have h := hspent.1
    have hstart : ((Cursor.start source).startNode .root).patience = 256 := rfl
    omega
  have hfull := hrun.patience_le (Nat.le_refl fullPatience)
  rw [headed_eq]
  generalize seesVersionDecl ((Cursor.start source).startNode .root) = seen at hsame hseen hpatient hfull
  obtain ⟨version, c⟩ := seen
  cases version with
  | true =>
    refine versionDecl_headed hsame hpatient hfull ?_
    have ho : c.outlook = (Cursor.start source).outlook := congrArg Reading.outlook hsame
    exact ho ▸ (hseen.mp rfl).1.kindAt
  | false =>
    have hc : c.toReading = (Cursor.start source).toReading := hsame
    rw [if_neg Bool.false_ne_true]
    refine ⟨hc.symm ▸ start_underway source, hc.symm ▸ start_aligned source, Nat.le_trans (by decide) hpatient, hfull, ?_, ?_, ?_, ?_⟩
    · exact ⟨fun B _ => hc.symm ▸ .refl _, fun h => hc.symm ▸ h⟩
    · have hnone : c.reports = [] := congrArg Reading.reports hc
      exact .inr (.inr (hnone.symm ▸ List.forall_mem_nil _))
    · have hnil : c.parts = [] := congrArg Reading.parts hc
      rw [hnil]
      exact List.forall_mem_nil _
    · rw [hc]
      have hnil : (Cursor.start source).parts = [] := rfl
      rw [hnil, start_left]
      simp [Tree.leavesOf]

/-! ## Main modules -/

/-- Where the prolog of a main module is read from. -/
def Cursor.mainProlog (source : String) : Cursor := (seesModuleDecl (.headed source)).2.placeTrivia.startNode .prolog

/-- Where the query body of a main module is read from. -/
def Cursor.mainBody (source : String) : Cursor :=
  (prologDecls (.mainProlog source)).2.finishNode .prolog (seesModuleDecl (.headed source)).2.placeTrivia.parts

/-- What is read behind the version declaration goes by whether the words of a module declaration come next. -/
theorem afterVersion_run (source : String) : (afterVersion (.headed source)).2 =
    ((if (seesModuleDecl (.headed source)).1 = true then libraryModule >>= fun _ => eatTrivia
      else mainModule >>= fun _ => eatTrivia) (seesModuleDecl (.headed source)).2).2 := by
  rw [afterVersion, bind_run]

/-- Without the words of a module declaration a prolog and a query body are read. -/
theorem afterVersion_main {source : String} (h : (seesModuleDecl (.headed source)).1 = false) :
    (afterVersion (.headed source)).2.toReading = (queryBody (.mainBody source)).2.placeTrivia.toReading := by
  rw [afterVersion_run, h]
  rfl

/-- What is known where the prolog of a main module is read from. -/
structure AtMain (source : String) (c : Cursor) : Prop where
  atProlog : c.AtProlog
  comes : (Cursor.start source).Comes c
  settled : c.Settled
  reports : c.reports = (Cursor.headed source).reports
  modulePrefix : c.modulePrefix = (Cursor.headed source).modulePrefix
  place : Token.sizeOf (leavesOf (seesModuleDecl (.headed source)).2.placeTrivia.parts) + Token.sizeOf c.left =
    Token.sizeOf (Token.ofSource source)

theorem atMain (source : String) : AtMain source (.mainProlog source) := by
  have hheaded := headed source
  obtain ⟨hrun, hspent, -⟩ := (seesModuleDecl_looks.safe (P := Outlook.Aligned)) (.headed source) hheaded.underway.ordered hheaded.aligned
    (Nat.le_trans (by decide) hheaded.patient) hheaded.le_full
  obtain ⟨hsame, -⟩ := seesModuleDecl_looks.keeps (.headed source)
  have hfull := hrun.patience_le hheaded.le_full
  have hpatient : 140 ≤ (seesModuleDecl (.headed source)).2.patience := by
    have h := hspent.1
    have h' := hheaded.patient
    omega
  have hprolog : Cursor.mainProlog source = (seesModuleDecl (.headed source)).2.placeTrivia.startNode .prolog := rfl
  rw [hprolog]
  obtain ⟨c, hc⟩ : ∃ c, (seesModuleDecl (.headed source)).2 = c := ⟨_, rfl⟩
  rw [hc] at hsame hfull hpatient ⊢
  have hplaced : c.placeTrivia.Underway := (Run.refl c).placeTrivia.underway (hsame.symm ▸ hheaded.underway)
  have haccount : c.placeTrivia.account = (Cursor.headed source).account := (account_placeTrivia c).trans (congrArg Reading.account hsame)
  refine ⟨⟨⟨hplaced.ordered, hplaced.scanned, hplaced.cut⟩, ?_, hpatient, hfull, rfl⟩, ⟨fun B hb => ?_, fun hs => ?_⟩, ?_, ?_, ?_, ?_⟩
  · have haligned : c.outlook.Aligned := hsame.symm ▸ hheaded.aligned
    have hout : c.placeTrivia.outlook.Aligned := outlook_placeTrivia c ▸ haligned.placed
    exact hout
  · have htold := hheaded.comes.leads B hb
    rw [← haccount] at htold
    exact htold
  · have hstands : c.Stands _ := hsame.symm ▸ hheaded.comes.stands hs
    exact hstands.placeTrivia
  · have hsettled : c.placeTrivia.Settled := settled_placeTrivia.mpr (hsame.symm ▸ hheaded.settled)
    exact hsettled
  · exact congrArg Account.reports haccount
  · have hprefix : c.modulePrefix = (Cursor.headed source).modulePrefix := congrArg Reading.modulePrefix hsame
    exact hprefix
  · have hplace : Token.sizeOf (leavesOf c.parts) + Token.sizeOf c.left = Token.sizeOf (Token.ofSource source) :=
      hsame.symm ▸ hheaded.place
    rw [hc]
    exact (size_placeTrivia c).trans hplace

/-- What is known where the query body of a main module is read from. -/
structure AtBody (source : String) (c : Cursor) : Prop where
  underway : c.Underway
  stands : c.Stands (Token.ofSource source)
  steady : c.account.Steady
  before : c.ahead = [] ∨ ∀ r ∈ c.reports, r.span.start < c.account.next.start
  isOpen : c.ahead ≠ [] → c.account.IsOpen
  place : Token.sizeOf (leavesOf c.parts) + Token.sizeOf c.left = Token.sizeOf (Token.ofSource source)
  fronts : ∀ x ∈ constructs c.parts, x.1 = .versionDecl ∨ x.1 = .prolog

theorem atBody (source : String) : AtBody source (.mainBody source) := by
  have hmain := atMain source
  have hpos := Token.size_pos_of_scan source.toList
  have hkept := Kept.start hmain.comes hmain.atProlog.empty hmain.place
  obtain ⟨hrun, -⟩ := prologDecls_safe (.mainProlog source) hmain.atProlog.underway.ordered hmain.atProlog.aligned hmain.atProlog.patient
    hmain.atProlog.le_full
  have hbefore := hkept.settled_loop hmain.atProlog.atDecl hmain.settled hpos
  obtain ⟨late, hdone, hend⟩ := hkept.loop hmain.atProlog.atDecl hpos
  have hunderway := hrun.underway hmain.atProlog.underway
  have hloop : (repeatRule prologStep none (.mainProlog source)).2 = (prologDecls (.mainProlog source)).2 := rfl
  have hbody : Cursor.mainBody source =
      (prologDecls (.mainProlog source)).2.finishNode .prolog (seesModuleDecl (.headed source)).2.placeTrivia.parts := rfl
  have hfronts : ∀ x ∈ constructs (seesModuleDecl (.headed source)).2.placeTrivia.parts, x.1 = .versionDecl := by
    have hsame : (seesModuleDecl (.headed source)).2.parts = (Cursor.headed source).parts :=
      congrArg Reading.parts (seesModuleDecl_looks.keeps (.headed source)).1
    rw [parts_placeTrivia, hsame, Tree.constructs_append, Tree.constructs_leavesFor, List.append_nil]
    exact (headed source).fronts
  rw [hloop] at hbefore hdone hend
  rw [hbody]
  generalize (seesModuleDecl (.headed source)).2.placeTrivia.parts = front at hdone hfronts ⊢
  generalize (prologDecls (.mainProlog source)).2 = d at hunderway hbefore hdone hend ⊢
  have hparts : (d.finishNode .prolog front).parts = front ++ [.node .prolog d.parts] := rfl
  refine ⟨⟨hunderway.ordered, hunderway.scanned, hunderway.cut⟩, hdone.stands, hdone.steady, hbefore, fun hne => ?_, ?_, ?_⟩
  · have hall := hbefore.resolve_left hne
    have hsound := hend.resolve_left hne
    by_contra hshut
    obtain ⟨r, hr, -, hstart⟩ := hsound.heard hshut fun hnil => hne (ahead_account_eq_nil.mp hnil)
    exact Nat.ne_of_lt (hall r hr) hstart
  · have hleaves : leavesOf [.node .prolog d.parts] = leavesOf d.parts := by simp [leavesOf]
    rw [hparts, Tree.leavesOf_append, hleaves, Token.sizeOf_append]
    exact hdone.place
  · intro x hx
    rw [hparts, Tree.constructs_append] at hx
    rcases List.mem_append.mp hx with hx | hx
    · exact .inl (hfronts x hx)
    · exact .inr (by simpa using congrArg Prod.fst (List.mem_singleton.mp hx))

/-! ## Library modules -/

/-- A node with the trivia in front of it is one construct. -/
theorem nodeWithLead_adds {C : NodeKind × List Tree → Prop} (kind : NodeKind) (r : Rule α) (h : ∀ us, C (kind, us)) :
    Adds (nodeWithLead kind r) C := fun c =>
  ⟨[.node kind (r (c.startNode kind)).2.parts], rfl, List.forall_mem_singleton.mpr (h _)⟩

/-- Trivia are no construct. -/
theorem placeTrivia_adds {C : NodeKind × List Tree → Prop} : Adds placeTrivia C := fun c =>
  ⟨leavesFor c.outlook.trivia, parts_placeTrivia c, by simp⟩

theorem queryBody_adds : Adds queryBody (·.1 = .queryBody) :=
  .bind (.of_keeps nextKind_looks.keeps) fun _ => .bind (.of_keeps atEnd_looks.keeps) fun _ =>
    .ite (.pure ()) (.node .queryBody _ fun _ => rfl)

theorem libraryTail_adds : Adds libraryTail (·.1 = .error) := by
  refine .bind (.of_keeps nextKind_looks.keeps) fun _ => .bind (.of_keeps atEnd_looks.keeps) fun _ => .ite (.pure ()) ?_
  refine .bind (.reportNext _ _) fun _ => .bind (.of_keeps atEnd_looks.keeps) fun _ => .ite (.pure ()) ?_
  exact .bind (.pure false) fun _ => .ite (.pure ()) (.node .error _ fun _ => rfl)

/-- The trivia behind the module declaration belong to the prolog if the declaration ends with its semicolon. -/
def libraryRest (complete : Bool) : Rule Unit := do
  if complete then nodeWithLead .prolog prologDecls else node .prolog prologDecls
  libraryTail

/-- Behind the words of a module declaration it is read with the prolog. -/
theorem afterVersion_library {source : String} (h : (seesModuleDecl (.headed source)).1 = true) :
    (afterVersion (.headed source)).2.toReading =
      ((declaration .moduleDecl moduleDecl >>= libraryRest) (seesModuleDecl (.headed source)).2).2.placeTrivia.toReading := by
  have hlibrary : libraryModule = declaration .moduleDecl moduleDecl >>= libraryRest := by
    unfold libraryModule
    exact bind_congr fun complete => by cases complete <;> rfl
  rw [afterVersion_run, h, if_pos rfl, hlibrary]
  generalize declaration .moduleDecl moduleDecl >>= libraryRest = r
  rfl

theorem libraryRest_adds (complete : Bool) : Adds (libraryRest complete) (·.1 ≠ .moduleDecl) := by
  have htail : Adds libraryTail (·.1 ≠ .moduleDecl) := fun c => by
    obtain ⟨ts, hts, hall⟩ := libraryTail_adds c
    exact ⟨ts, hts, fun x hx => by simp [hall x hx]⟩
  cases complete with
  | true => exact .bind (nodeWithLead_adds .prolog _ fun _ => by simp) fun _ => htail
  | false => exact .bind (.node .prolog _ fun _ => by simp) fun _ => htail

end Grammar

namespace Parsed

variable {source : String}

/-- The tree of a source is what was read of it in a node. -/
theorem tree_eq (source : String) : (ofSource source).tree = .node .root (afterVersion (.headed source)).2.parts := by
  have hparts : (Cursor.done source).parts = [.node .root (afterVersion (.headed source)).2.parts] :=
    congrArg (fun c : Cursor => c.parts) (wholeModule_eq source)
  exact List.singleton_inj.mp ((tree_ofSource source).symm.trans hparts)

theorem reports_eq (source : String) : (ofSource source).reports = (afterVersion (.headed source)).2.reports := by
  have hreports := congrArg (fun c : Cursor => c.reports) (wholeModule_eq source)
  exact hreports

/-- A library module starts with the words of a module declaration. -/
theorem isLibrary_eq (source : String) : (ofSource source).root.isLibrary = (seesModuleDecl (.headed source)).1 := by
  have hchildren : (ofSource source).root.children = (afterVersion (.headed source)).2.parts := by rw [root, tree_eq]; rfl
  cases h : (seesModuleDecl (.headed source)).1 with
  | true =>
    rw [afterVersion_library h] at hchildren
    obtain ⟨vs, hdecl⟩ : ∃ vs : List Tree, (declaration .moduleDecl moduleDecl (seesModuleDecl (.headed source)).2).2.parts =
        (seesModuleDecl (.headed source)).2.parts ++ (leavesFor (seesModuleDecl (.headed source)).2.outlook.trivia ++ [.node .moduleDecl vs]) :=
      ⟨_, parts_declaration .moduleDecl moduleDecl (seesModuleDecl (.headed source)).2⟩
    rw [bind_run] at hchildren
    generalize declaration .moduleDecl moduleDecl (seesModuleDecl (.headed source)).2 = declared at hdecl hchildren
    obtain ⟨complete, d⟩ := declared
    obtain ⟨us, hus, -⟩ := ((libraryRest_adds complete).bind fun _ => placeTrivia_adds) d
    have hparts : (libraryRest complete d).2.placeTrivia.parts = d.parts ++ us := hus
    have hmem : (.moduleDecl, vs) ∈ constructs (ofSource source).root.children := by
      rw [hchildren, hparts, hdecl]
      simp
    exact Node.child?_isSome hmem
  | false =>
    rw [afterVersion_main h] at hchildren
    obtain ⟨us, hus, hbody⟩ := (queryBody_adds.bind fun _ => placeTrivia_adds (C := (·.1 = .queryBody))) (.mainBody source)
    have hparts : (queryBody (.mainBody source)).2.placeTrivia.parts = (Cursor.mainBody source).parts ++ us := hus
    have hfind : (constructs (ofSource source).root.children).find? (·.1 = .moduleDecl) = none := by
      rw [hchildren, hparts, Tree.constructs_append, List.find?_eq_none]
      intro x hx
      rcases List.mem_append.mp hx with hx | hx
      · rcases (atBody source).fronts x hx with hk | hk <;> simp [hk]
      · simp [hbody x hx]
    rw [← Node.child?_eq] at hfind
    have hnone : (ofSource source).root.moduleDecl? = none := Option.map_eq_none_iff.mp hfind
    rw [Node.isLibrary, hnone]
    rfl

end Parsed

end QueryStubs
