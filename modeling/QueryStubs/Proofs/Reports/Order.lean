import QueryStubs.Proofs.Reports.Ranges

/-!
# Setters that come too late
-/

namespace QueryStubs

open Grammar
open QueryStubs.Tree (leavesOf constructs)

/-! ## Rows of declarations -/

/-- What the reports say of some declarations in a row. No report reaches over the start of a declaration. Where a setter comes behind a
variable, function or option declaration, some error starts where the setter does. And what is reported as misplaced is such a setter. -/
structure Flagged (ns : List Node) (rs : List Diagnostic) : Prop where
  apart : ∀ n ∈ ns, ∀ r ∈ rs, n.core.start ≤ r.span.start ∨ r.span.stop ≤ n.core.start
  found : ∀ before n after, ns = before ++ n :: after → n.kind.isSetter = true → (∃ m ∈ before, m.kind.isBodyDecl = true) →
    ∃ r ∈ rs, r.isError = true ∧ r.span.start = n.core.start
  meant : ∀ r ∈ rs, r.kind = .misplacedDeclaration → ∃ before n after first, ns = before ++ n :: after ∧ n.kind.isSetter = true ∧
    before.find? (·.kind.isBodyDecl) = some first ∧ r = .misplaced n.core first.core

namespace Flagged

variable {ns : List Node} {rs new : List Diagnostic} {n : Node}

/-- No declarations are wrong as long as nothing is said to be misplaced. -/
theorem nil (h : ∀ r ∈ rs, r.kind ≠ .misplacedDeclaration) : Flagged [] rs where
  apart := List.forall_mem_nil _
  found before n after hns := by simp at hns
  meant r hr hk := absurd hk (h r hr)

/-- It goes on to hold when other things are reported behind the declarations. -/
theorem more (h : Flagged ns rs) (hnew : ∀ r ∈ new, r.kind ≠ .misplacedDeclaration ∧ ∀ n ∈ ns, n.core.start ≤ r.span.start) :
    Flagged ns (rs ++ new) where
  apart n hn := List.forall_mem_append.mpr ⟨h.apart n hn, fun r hr => .inl ((hnew r hr).2 n hn)⟩
  found before n after hns hk hb := by
    obtain ⟨r, hr, he⟩ := h.found before n after hns hk hb
    exact ⟨r, List.mem_append_left _ hr, he⟩
  meant := List.forall_mem_append.mpr ⟨h.meant, fun r hr hk => absurd hk (hnew r hr).1⟩

/-- It goes on to hold when one more declaration is read and nothing is reported in front of it, if a setter that comes too late is where some
error starts, and only such a setter is said to be misplaced. -/
theorem snoc (h : Flagged ns rs) (hns : ∀ m ∈ ns, m.core.start ≤ n.core.start)
    (hold : ∀ r ∈ rs, n.core.start ≤ r.span.start ∨ r.span.stop ≤ n.core.start) (hnew : ∀ r ∈ new, n.core.start ≤ r.span.start)
    (hfound : n.kind.isSetter = true → (∃ m ∈ ns, m.kind.isBodyDecl = true) →
      ∃ r ∈ rs ++ new, r.isError = true ∧ r.span.start = n.core.start)
    (hmeant : ∀ r ∈ new, r.kind = .misplacedDeclaration → n.kind.isSetter = true ∧
      ∃ first, ns.find? (·.kind.isBodyDecl) = some first ∧ r = .misplaced n.core first.core) :
    Flagged (ns ++ [n]) (rs ++ new) where
  apart := by
    refine List.forall_mem_append.mpr ⟨fun m hm => ?_, List.forall_mem_singleton.mpr ?_⟩
    · exact List.forall_mem_append.mpr ⟨h.apart m hm, fun r hr => .inl (Nat.le_trans (hns m hm) (hnew r hr))⟩
    · exact List.forall_mem_append.mpr ⟨hold, fun r hr => .inl (hnew r hr)⟩
  found before m after hrow hk hb := by
    rcases List.eq_nil_or_concat after with rfl | ⟨after, k, rfl⟩
    · obtain ⟨rfl, hm⟩ := List.append_inj' hrow rfl
      obtain rfl := List.singleton_inj.mp hm
      exact hfound hk hb
    · rw [List.concat_eq_append, ← List.cons_append, ← List.append_assoc] at hrow
      obtain ⟨r, hr, he⟩ := h.found before m after (List.append_inj' hrow rfl).1 hk hb
      exact ⟨r, List.mem_append_left _ hr, he⟩
  meant := by
    refine List.forall_mem_append.mpr ⟨fun r hr hk => ?_, fun r hr hk => ?_⟩
    · obtain ⟨before, m, after, first, hrow, hrest⟩ := h.meant r hr hk
      exact ⟨before, m, after ++ [n], first, by rw [hrow]; simp, hrest⟩
    · obtain ⟨hsetter, first, hfirst, hr⟩ := hmeant r hr hk
      exact ⟨ns, n, [], first, rfl, hsetter, hfirst, hr⟩

end Flagged

/-- The nodes of a row of trees that starts at a byte offset. -/
def nodesFrom (offset : Nat) (ts : List Tree) : List Node := (Part.ofTrees offset ts).filterMap Part.node?

/-- A node behind trivia at the end of a row comes last. -/
theorem nodesFrom_snoc (offset : Nat) (ts : List Tree) (w : List Token) (kind : NodeKind) (us : List Tree) :
    nodesFrom offset (ts ++ (leavesFor w ++ [.node kind us])) =
      nodesFrom offset ts ++ [⟨kind, us, offset + Token.sizeOf (leavesOf ts) + Token.sizeOf w⟩] := by
  have hleaves : ∀ place, nodesFrom place (leavesFor w) = [] := by
    intro place
    have hnone := (⟨.error, leavesFor w, place⟩ : Node).constructs_eq
    rw [Tree.constructs_leavesFor] at hnone
    exact List.map_eq_nil_iff.mp hnone
  unfold nodesFrom at hleaves ⊢
  rw [Part.ofTrees_append, Part.ofTrees_append, List.filterMap_append, List.filterMap_append, hleaves]
  have hsize : leavesOf (leavesFor w) = w := Tree.leavesOf_map_leaf w
  rw [hsize]
  rfl

namespace Grammar

/-! ## One round -/

namespace Round

variable {tokens : List Token} {first late : Option Span} {c d x : Cursor} {w : List Token} {kind : NodeKind} {us : List Tree}

/-- What is reported in a declaration is no misplaced setter, it does not start in front of the declaration, and it is about whole tokens. -/
theorem told_new (h : Round first late c d x w kind us) (hs : c.Stands tokens) (ho : c.account.Ordered) :
    ∃ new, x.reports = c.reports ++ new ∧
      ∀ r ∈ new, r.kind ≠ .misplacedDeclaration ∧ c.account.next.start ≤ r.span.start ∧ r.Placed tokens := by
  obtain ⟨htold, -⟩ := h.told (hs.opens ho)
  obtain ⟨new, hnew, hfits⟩ := htold.reports
  refine ⟨new, by rw [Account.reports_advance] at hnew; exact hnew, fun r hr => ?_⟩
  have hfit := (Told.refl _).advance.fits (hfits r hr)
  exact ⟨hfit.not_misplaced, hfit.start_le ho fun _ _ hb => hb.2, hfit.placed hs.1 hs.account_at fun _ _ hb => hb.1⟩

/-- A round comes to a place behind the start of its declaration, and what comes next is behind that place. -/
theorem progress (h : Round first late c d x w kind us) (hs : c.Stands tokens) (ho : c.account.Ordered) :
    c.account.next.start < d.reached ∧ d.reached ≤ x.account.next.start ∧ d.account.next = x.account.next := by
  obtain ⟨htold, -⟩ := h.told (hs.opens ho)
  have hne : c.account.ahead ≠ [] := mt ahead_account_eq_nil.mp h.ahead_ne
  have hreached : d.reached = x.account.reached := congrArg Outlook.reached h.outlook
  have hordered := ho.advance.1
  have hnext : d.account.next = x.account.next := by
    rcases h.checked with ⟨hsame, -⟩ | ⟨_, -, -, hsame⟩
    · rw [hsame]
    · rw [hsame, Account.next_tell]
  refine ⟨?_, hreached ▸ (htold.ordered hordered).1.next.1, hnext⟩
  obtain ⟨l, ls, ha⟩ := List.exists_cons_of_ne_nil hne
  have hadvance : c.account.next.stop = c.account.advance.reached := by
    rw [Account.next_of_cons ha, Account.advance_of_cons ha]
  calc c.account.next.start < c.account.next.stop := ho.next_lt hne
    _ = c.account.advance.reached := hadvance
    _ ≤ x.account.reached := htold.reached_le hordered
    _ = d.reached := hreached.symm

/-- Right behind a declaration the guard does its work. And where a semicolon was taken, all reports start before what comes next. -/
theorem sound (h : Round first late c d x w kind us) (hs : c.Stands tokens) (hc : c.account.Steady) (hpos : ∀ t ∈ tokens, 0 < t.size) :
    x.account.Sound ∧ (x.ahead = [] ∨ (declAhead x.ahead).isSome = true ∨
      ∀ r ∈ x.account.reports, r.span.start < x.account.next.start ∧ r.kind.isStructural = false) := by
  obtain ⟨htold, hends⟩ := h.told (hs.opens hc.ordered)
  have hsound := (hc.sound_advance (mt ahead_account_eq_nil.mp h.ahead_ne)).1
  have hinside : ∀ k s, Token.Bracket tokens k s ∧ c.account.next.start ≤ s.start → s.start < c.account.advance.limit := fun k s hb =>
    (hs.bracket_lt hpos hb.1).trans_eq (Account.limit_advance _).symm
  refine ⟨htold.sound hsound hinside, ?_⟩
  rcases hends with ⟨b, hb, hne, hx⟩ | hend
  · rw [hx]
    exact .inr (.inr ((hb.sound hsound hinside).steady.sound_advance hne).2)
  · exact hend.imp_right .inl

/-- All that a round reports starts with its declaration or behind its start, and it is the declaration itself that is misplaced, if it is
a setter behind the first declaration that it had to come before. -/
theorem reports (h : Round first late c d x w kind us) (hs : c.Stands tokens) (ho : c.account.Ordered) :
    ∃ new, d.reports = c.reports ++ new ∧ ∀ r ∈ new, c.account.next.start ≤ r.span.start ∧
      (r.kind ≠ .misplacedDeclaration ∧ r.Placed tokens ∨
        ∃ place, first = some place ∧ kind.isSetter = true ∧ r = .misplaced ⟨c.account.next.start, d.reached⟩ place) := by
  obtain ⟨new, hnew, hfacts⟩ := h.told_new hs ho
  have hfacts : ∀ r ∈ new, c.account.next.start ≤ r.span.start ∧ (r.kind ≠ .misplacedDeclaration ∧ r.Placed tokens ∨
      ∃ place, first = some place ∧ kind.isSetter = true ∧ r = .misplaced ⟨c.account.next.start, d.reached⟩ place) := fun r hr =>
    ⟨(hfacts r hr).2.1, .inl ⟨(hfacts r hr).1, (hfacts r hr).2.2⟩⟩
  rcases h.checked with ⟨hsame, -⟩ | ⟨place, hfirst, hsetter, htold⟩
  · exact ⟨new, (congrArg Account.reports hsame).trans hnew, hfacts⟩
  · rw [← next_account] at htold
    refine ⟨new ++ [.misplaced ⟨c.account.next.start, d.reached⟩ place], ?_, ?_⟩
    · have hreports : d.reports = x.reports ++ [.misplaced ⟨c.account.next.start, d.reached⟩ place] := congrArg Account.reports htold
      rw [hreports, hnew, List.append_assoc]
    · exact List.forall_mem_append.mpr ⟨hfacts, List.forall_mem_singleton.mpr ⟨Nat.le_refl _, .inr ⟨place, hfirst, hsetter, rfl⟩⟩⟩

/-- Where a setter comes too late, some error starts where it does: the round reports it, unless the last report was made there, and then an
error was made there before. -/
theorem found (h : Round first late c d x w kind us) (hs : c.Stands tokens) (ho : c.account.Ordered) (hc : c.account.Heard)
    (hsetter : kind.isSetter = true) (hfirst : first.isSome = true) :
    ∃ r ∈ d.reports, r.isError = true ∧ r.span.start = c.account.next.start := by
  rcases h.checked with ⟨hsame, hlast⟩ | ⟨place, -, -, htold⟩
  · have hne : c.account.ahead ≠ [] := mt ahead_account_eq_nil.mp h.ahead_ne
    have hlast : x.account.lastReport = some c.account.next.start := by
      rw [next_account]
      exact hlast hfirst hsetter
    have hbefore : c.account.lastReport = some c.account.next.start := by
      rcases (h.told (hs.opens ho)).1.lastReport ho.advance.1 with hsame | ⟨place, hplace, hle⟩
      · rw [← Account.lastReport_advance, ← hsame, hlast]
      · obtain rfl : c.account.next.start = place := Option.some.inj (hlast.symm.trans hplace)
        exact absurd (Nat.lt_of_lt_of_le (ho.next_lt hne) (ho.advance.2 hne)) (Nat.not_lt_of_le hle)
    obtain ⟨r, hr, he⟩ := hc (fun hopen => hopen hbefore) hne
    obtain ⟨new, hnew, -⟩ := h.reports hs ho
    exact ⟨r, hnew ▸ List.mem_append_left _ hr, he⟩
  · have hreports : d.reports = x.reports ++ [.misplaced ⟨c.nextSpan.start, d.reached⟩ place] := congrArg Account.reports htold
    exact ⟨_, hreports ▸ List.mem_append_right _ (List.mem_singleton_self _), rfl, (congrArg Span.start (next_account c)).symm⟩

/-- A round keeps what the loop goes by, as long as the setters that were misplaced before are passed. -/
theorem ledger (h : Round first late c d x w kind us) (hs : c.Stands tokens) (hc : c.account.Steady) (hpos : ∀ t ∈ tokens, 0 < t.size)
    (hpassed : ∀ r ∈ c.reports, r.kind = .misplacedDeclaration → r.span.start < c.account.next.start) :
    d.account.Steady ∧ d.account.Heard ∧ (d.ahead = [] ∨ (declAhead d.ahead).isSome = true ∨ d.account.Guarded) := by
  obtain ⟨hlt, hle, hnext⟩ := h.progress hs hc.ordered
  obtain ⟨hsound, hready⟩ := h.sound hs hc hpos
  have hahead : d.ahead = x.ahead := congrArg Outlook.ahead h.outlook
  rcases h.checked with ⟨hsame, -⟩ | ⟨place, -, -, htold⟩
  · rw [hsame]
    exact ⟨hsound.steady, hsound.heard, .inr (.inr hsound.guarded)⟩
  · rw [← next_account] at htold
    obtain ⟨new, hnew, hfacts⟩ := h.told_new hs hc.ordered
    have hbefore : c.account.next.start < x.account.next.start := Nat.lt_of_lt_of_le hlt hle
    have hsteady : d.account.Steady := by
      rw [htold]
      refine hsound.steady.tell (.inl hlt) (.inr hle) (Nat.le_of_lt hbefore) ?_ nofun
      have hreports : x.account.reports = c.reports ++ new := hnew
      rw [hreports]
      refine List.forall_mem_append.mpr ⟨fun r hr hk => ?_, fun r hr hk => (hfacts r hr).1 (congrArg Prod.snd hk)⟩
      exact Nat.ne_of_lt (hpassed r hr (congrArg Prod.snd hk)) (congrArg Prod.fst hk)
    have hopen : d.account.IsOpen := by
      intro hlast
      rw [hnext, htold] at hlast
      exact Nat.ne_of_lt hbefore (Option.some.inj hlast)
    refine ⟨hsteady, fun hn => absurd hopen hn, ?_⟩
    rw [hahead]
    refine hready.imp_right fun hready => hready.imp_right fun hready _ => ?_
    rw [hnext, htold]
    exact List.forall_mem_append.mpr ⟨hready, List.forall_mem_singleton.mpr ⟨hbefore, rfl⟩⟩

/-- A round adds one declaration. Its core reaches from what came next to where the round has come, and it is all of the declaration if that
is one that setters come before. -/
theorem declares (h : Round first late c d x w kind us) (hs : c.Stands tokens) {offset : Nat}
    (hplace : offset + Token.sizeOf (leavesOf c.parts) + Token.sizeOf c.left = Token.sizeOf tokens) :
    ∃ n : Node, nodesFrom offset d.parts = nodesFrom offset c.parts ++ [n] ∧ n.kind = kind ∧ n.core = ⟨c.account.next.start, d.reached⟩ ∧
      n.core.start = n.start ∧ Token.Row tokens n.core ∧ (n.kind.isBodyDecl = true → n.core = n.span) := by
  obtain ⟨t, ts, hus, ht⟩ := h.starts
  obtain ⟨hstart, hcore, hrow⟩ := hs.core (h.run.stands hs) h.trivia h.left hus ht hplace kind
  rw [← next_account] at hstart hcore hrow
  refine ⟨⟨kind, us, offset + Token.sizeOf (leavesOf c.parts) + Token.sizeOf w⟩, ?_, rfl, hcore, ?_, ?_, fun hbody => ?_⟩
  · rw [h.parts, nodesFrom_snoc]
  · rw [hcore, hstart]
  · rw [hcore]
    exact hrow
  · exact Node.core_eq_span h.starts (h.ends hbody)

end Round

/-! ## The loop -/

/-- What holds wherever the loop over declarations can go on, of a prolog that starts at a byte offset. -/
structure Kept (tokens : List Token) (offset : Nat) (first : Option Span) (s : Reading) : Prop where
  stands : s.Stands tokens
  place : offset + Token.sizeOf (leavesOf s.parts) + Token.sizeOf s.left = Token.sizeOf tokens
  steady : s.account.Steady
  heard : s.account.Heard
  ready : s.ahead = [] ∨ (declAhead s.ahead).isSome = true ∨ s.account.Guarded
  placed : ∀ r ∈ s.reports, r.Placed tokens
  first_eq : first = ((nodesFrom offset s.parts).find? (·.kind.isBodyDecl)).map Node.core
  decls : ∀ n ∈ nodesFrom offset s.parts, n.core.start = n.start ∧ n.core.start < n.core.stop ∧ n.core.stop ≤ s.account.next.start ∧
    Token.Row tokens n.core
  whole : ∀ n ∈ nodesFrom offset s.parts, n.kind.isBodyDecl = true → n.core = n.span
  flagged : Flagged (nodesFrom offset s.parts) s.reports

variable {tokens : List Token} {offset : Nat} {first late : Option Span} {c d x : Cursor} {w : List Token} {kind : NodeKind} {us : List Tree}

/-- A setter that is reported as misplaced starts in front of what comes next. -/
theorem Kept.passed {s : Reading} (h : Kept tokens offset first s) :
    ∀ r ∈ s.reports, r.kind = .misplacedDeclaration → r.span.start < s.account.next.start := by
  intro r hr hk
  obtain ⟨before, n, after, body, hrow, -, -, rfl⟩ := h.flagged.meant r hr hk
  obtain ⟨-, hlt, hle, -⟩ := h.decls n (by simp [hrow])
  exact Nat.lt_of_lt_of_le hlt hle

/-- The declaration that setters have to come before is the first in the prolog so far. -/
theorem Kept.first_some {s : Reading} (h : Kept tokens offset first s) {place : Span} (hplace : first = some place) :
    ∃ body, (nodesFrom offset s.parts).find? (·.kind.isBodyDecl) = some body ∧ body.core = place :=
  Option.map_eq_some_iff.mp (h.first_eq.symm.trans hplace)

/-- Behind a round it holds of the declarations what the reports say of them. -/
theorem Kept.flagged_round (h : Kept tokens offset first c.toReading) (hr : Round first late c d x w kind us) {n : Node}
    (hnodes : nodesFrom offset d.parts = nodesFrom offset c.parts ++ [n]) (hkind : n.kind = kind)
    (hcore : n.core = ⟨c.account.next.start, d.reached⟩) : Flagged (nodesFrom offset d.parts) d.reports := by
  have ho := h.steady.ordered
  obtain ⟨new, hnew, hfacts⟩ := hr.reports h.stands ho
  rw [hnodes, hnew]
  refine h.flagged.snoc (fun m hm => ?_) ?_ ?_ ?_ ?_
  · obtain ⟨-, hms, hme, -⟩ := h.decls m hm
    rw [hcore]
    exact Nat.le_of_lt (Nat.lt_of_lt_of_le hms hme)
  · rw [hcore]
    intro r hmem
    rcases h.steady.behind r hmem with hs | hs
    · exact .inl (Nat.le_of_eq (congrArg Span.start hs).symm)
    · exact .inr hs
  · rw [hcore]
    exact fun r hmem => (hfacts r hmem).1
  · rintro hsetter ⟨m, hm, hbody⟩
    have hsome : first.isSome = true := by
      rw [h.first_eq, Option.isSome_map, List.find?_isSome]
      exact ⟨m, hm, hbody⟩
    rw [hcore, ← hnew]
    exact hr.found h.stands ho h.heard (hkind ▸ hsetter) hsome
  · intro r hmem hk
    rcases (hfacts r hmem).2 with ⟨hnot, -⟩ | ⟨place, hplace, hsetter, rfl⟩
    · exact absurd hk hnot
    · obtain ⟨body, hbody, rfl⟩ := h.first_some hplace
      exact ⟨hkind.symm ▸ hsetter, body, hbody, by rw [hcore]⟩

/-- Every round keeps it so. -/
theorem Kept.round (h : Kept tokens offset first c.toReading) (hr : Round first late c d x w kind us) (hpos : ∀ t ∈ tokens, 0 < t.size) :
    Kept tokens offset late d.toReading := by
  have ho := h.steady.ordered
  have hplace := h.place
  obtain ⟨hlt, hle, hnext⟩ := hr.progress h.stands ho
  obtain ⟨hsteady, hheard, hready⟩ := hr.ledger h.stands h.steady hpos h.passed
  obtain ⟨new, hnew, hfacts⟩ := hr.reports h.stands ho
  obtain ⟨n, hnodes, hkind, hcore, hstart, hrow, hwhole⟩ := hr.declares h.stands h.place
  refine ⟨hr.run.stands h.stands, ?_, hsteady, hheard, hready, ?_, ?_, ?_, ?_, h.flagged_round hr hnodes hkind hcore⟩
  · have hsize : Token.sizeOf (leavesOf d.parts) = Token.sizeOf (leavesOf c.parts) + (Token.sizeOf w + Token.sizeOf (leavesOf us)) := by
      rw [hr.parts, Tree.leavesOf_append, Tree.leavesOf_append, show leavesOf (leavesFor w) = w from Tree.leavesOf_map_leaf w]
      simp [leavesOf]
    rw [hr.left, Token.sizeOf_append, Token.sizeOf_append, sizeOf_tokensOf] at hplace
    omega
  · rw [hnew]
    refine List.forall_mem_append.mpr ⟨h.placed, fun r hmem => ?_⟩
    rcases (hfacts r hmem).2 with ⟨-, hplaced⟩ | ⟨place, hplace, -, rfl⟩
    · exact hplaced
    · obtain ⟨body, hbody, rfl⟩ := h.first_some hplace
      exact .misplaced (hcore ▸ hrow) (h.decls body (List.mem_of_find?_eq_some hbody)).2.2.2
  · have hlate := hr.late_eq
    rw [← next_account, ← hcore, ← hkind] at hlate
    rw [hlate, hnodes, List.find?_append, h.first_eq]
    cases (nodesFrom offset c.parts).find? (·.kind.isBodyDecl) with
    | some body => simp
    | none => cases hbody : n.kind.isBodyDecl <;> simp [hbody]
  · rw [hnodes, hnext]
    refine List.forall_mem_append.mpr ⟨fun m hm => ?_, List.forall_mem_singleton.mpr ⟨hstart, ?_, ?_, hrow⟩⟩
    · obtain ⟨hm, hms, hme, hmr⟩ := h.decls m hm
      exact ⟨hm, hms, Nat.le_trans hme (Nat.le_of_lt (Nat.lt_of_lt_of_le hlt hle)), hmr⟩
    · rw [hcore]
      exact hlt
    · rw [hcore]
      exact hle
  · rw [hnodes]
    exact List.forall_mem_append.mpr ⟨h.whole, List.forall_mem_singleton.mpr hwhole⟩

/-- So it is where the loop ends, and there the guard does its work, or nothing is left. -/
theorem Kept.loop (h : Kept tokens offset first c.toReading) (hc : c.AtDecl first) (hpos : ∀ t ∈ tokens, 0 < t.size) :
    ∃ late, Kept tokens offset late (repeatRule prologStep first c).2.toReading ∧
      ((repeatRule prologStep first c).2.ahead = [] ∨ (repeatRule prologStep first c).2.account.Sound) := by
  refine prologLoop_induction (M := fun first c d => Kept tokens offset first c.toReading →
    ∃ late, Kept tokens offset late d.toReading ∧ (d.ahead = [] ∨ d.account.Sound)) (fun {first c d} _ hnone hd h => ?_)
      (fun {first c _ d e} hc hs hrest h => ?_) first c hc h
  · rw [hd]
    refine ⟨first, h, ?_⟩
    rcases h.ready with hnil | hsome | hguarded
    · exact .inl hnil
    · rw [hnone] at hsome
      cases hsome
    · exact .inr ⟨h.steady, hguarded, h.heard⟩
  · obtain ⟨_, _, _, _, hround⟩ := prologStep_round hc hs
    exact hrest (h.round hround hpos)

/-- So it is where the prolog of a source starts. -/
theorem Kept.start {source : String} {e : Cursor} (hcomes : (Cursor.start source).Comes e) (hparts : e.parts = [])
    (hplace : offset + Token.sizeOf e.left = Token.sizeOf (Token.ofSource source)) : Kept (Token.ofSource source) offset none e.toReading := by
  have hstart := start_stands source
  have ho : (Cursor.start source).account.Ordered := account_ordered.mpr (start_ordered source)
  have htold := hcomes.leads _ (hstart.opens ho)
  obtain ⟨new, hnew, hfits⟩ := htold.reports
  have hreports : e.reports = new := hnew
  have hsound := htold.sound (ho.sound rfl rfl) fun k s hb => hstart.bracket_lt (Token.size_pos_of_scan _) hb.1
  have hnodes : nodesFrom offset e.parts = [] := by rw [hparts]; rfl
  refine ⟨hcomes.stands hstart, ?_, hsound.steady, hsound.heard, .inr (.inr hsound.guarded), ?_, ?_, ?_, ?_, ?_⟩
  · rw [hparts]
    exact hplace
  · rw [hreports]
    exact fun r hr => (hfits r hr).placed hstart.1 hstart.account_at fun _ _ hb => hb.1
  · rw [hnodes]
    rfl
  · rw [hnodes]
    exact List.forall_mem_nil _
  · rw [hnodes]
    exact List.forall_mem_nil _
  · rw [hnodes, hreports]
    exact .nil fun r hr => (hfits r hr).not_misplaced

/-- What is reported behind the prolog leaves all that as it is that is said of the reports. -/
theorem Kept.rests (h : Kept tokens offset first d.toReading) (hd : d.ahead = [] ∨ d.account.Sound) (hpos : ∀ t ∈ tokens, 0 < t.size)
    {a : Account} (hrests : d.account.Rests a) :
    a.Steady ∧ (∀ r ∈ a.reports, r.Placed tokens) ∧ Flagged (nodesFrom offset d.parts) a.reports := by
  rcases hd with hnil | hsound
  · rw [hrests.2 (ahead_account_eq_nil.mpr hnil)]
    exact ⟨h.steady, h.placed, h.flagged⟩
  · have ho := h.steady.ordered
    have htold := hrests.1 _ (h.stands.opens ho)
    obtain ⟨new, hnew, hfits⟩ := htold.reports
    refine ⟨(htold.sound hsound fun k s hb => h.stands.bracket_lt hpos hb.1).steady, ?_, ?_⟩
    · rw [hnew]
      exact List.forall_mem_append.mpr ⟨h.placed, fun r hr => (hfits r hr).placed h.stands.1 h.stands.account_at fun _ _ hb => hb.1⟩
    · rw [hnew]
      refine h.flagged.more fun r hr => ⟨(hfits r hr).not_misplaced, fun n hn => ?_⟩
      obtain ⟨-, hlt, hle, -⟩ := h.decls n hn
      exact Nat.le_trans (Nat.le_of_lt (Nat.lt_of_lt_of_le hlt hle)) ((hfits r hr).start_le ho fun _ _ hb => hb.2)

end Grammar

namespace Parsed

/-- What is known of all reports of a source that has such a prolog. -/
structure Reported (source : String) (prolog : Node) : Prop where
  prolog_eq : (ofSource source).root.prolog? = some prolog
  steady : (Cursor.done source).account.Steady
  placed : ∀ r ∈ (ofSource source).reports, r.Placed (Token.ofSource source)
  decls : ∀ n ∈ prolog.nodes, n.core.start = n.start ∧ Token.Row (Token.ofSource source) n.core
  whole : ∀ n ∈ prolog.nodes, n.kind.isBodyDecl = true → n.core = n.span
  flagged : Flagged prolog.nodes (ofSource source).reports

/-- It is known of every source. -/
theorem reported (source : String) : ∃ prolog, Reported source prolog := by
  obtain ⟨front, e, behind, he, hcomes, htree, hfirst, hleft, hrests⟩ := prolog_told source
  have hpos := Token.size_pos_of_scan source.toList
  obtain ⟨hrun, -⟩ := prologDecls_safe e he.underway.ordered he.aligned he.patient he.le_full
  obtain ⟨ts, hts, hleft'⟩ := hrun.tokens he.underway.scanned
  rw [he.empty, List.nil_append] at hts
  have hplace : Token.sizeOf (leavesOf front) + Token.sizeOf e.left = Token.sizeOf (Token.ofSource source) := by
    rw [tokens_ofSource, htree, hleft', hleft, hts]
    simp
  obtain ⟨late, hdone, hend⟩ := (Kept.start hcomes he.empty hplace).loop he.atDecl hpos
  obtain ⟨hsteady, hplaced, hflagged⟩ := hdone.rests hend hpos hrests
  have hprolog := Node.child?_behind (n := (ofSource source).root) (by rw [root, htree]; rfl) hfirst
  have hroot : (ofSource source).root.start = 0 := by rw [root, htree]; rfl
  rw [hroot, Nat.zero_add] at hprolog
  exact ⟨_, hprolog, hsteady, hplaced, fun n hn => ⟨(hdone.decls n hn).1, (hdone.decls n hn).2.2.2⟩, hdone.whole, hflagged⟩

end Parsed

end QueryStubs
