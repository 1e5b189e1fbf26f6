import QueryStubs.Proofs.Reports.Declarations
import QueryStubs.Proofs.Syntax.Declarations
import QueryStubs.Proofs.Views.Rows

/-!
# Names outside the namespace

A function is reported before its name is read, from what comes next, but what is reported can be said of the node that the name becomes
(`Node.outside`). For the prefix that is seen ahead is the one that the name has: a colon and a second name belong to it just if both touch
(`checkedName_told`).
-/

namespace QueryStubs

open Grammar

/-- The range of the first name under a node. -/
def Node.firstName (n : Node) : Span :=
  let start := n.start + Token.sizeOf (n.leaves.takeWhile (·.kind ≠ .name))
  ⟨start, start + (n.leaves.find? (·.kind = .name)).elim 0 Token.size⟩

/-- The report of a function of which the name does not have the prefix of its module. -/
def Node.outside (name : Node) : Diagnostic := ⟨.functionOutsideModuleNamespace, name.firstName, name.qualifier?, []⟩

/-- What is reported of functions with some names in a module that binds a prefix, if it binds one. -/
def outsiders (bound : Option String) (names : List Node) : List Diagnostic :=
  (names.filter fun name => bound.isSome && name.qualifier? ≠ bound).map Node.outside

/-- Where no prefix is bound, nothing is reported. -/
theorem outsiders_none (names : List Node) : outsiders none names = [] := by
  simp [outsiders]

theorem outsiders_append (bound : Option String) (names names' : List Node) :
    outsiders bound (names ++ names') = outsiders bound names ++ outsiders bound names' := by
  rw [outsiders, List.filter_append, List.map_append]
  rfl

namespace Grammar

variable {c : Cursor} {l : Lexeme} {ls : List Lexeme}

/-- The trees that a name becomes: it alone, or with a colon and a second name behind it. -/
inductive NameTrees (first : Token) : Option String → List Tree → Prop
  | bare : NameTrees first none (leavesFor [first])
  | prefixed {colon last : Token} : colon.kind = .colon → last.kind = .name →
      NameTrees first (some first.text) (leavesFor [first, colon, last])

/-- A node of such trees has this prefix and starts with its first name. -/
theorem NameTrees.view {first : Token} {found : Option String} {ns : List Tree} (h : NameTrees first found ns) (hk : first.kind = .name)
    (start : Nat) : (⟨.qname, ns, start⟩ : Node).qualifier? = found ∧
      (⟨.qname, ns, start⟩ : Node).firstName = ⟨start, start + first.size⟩ := by
  have hleaves : ∀ ts, (⟨.qname, leavesFor ts, start⟩ : Node).leaves = ts := fun ts => Tree.leavesOf_map_leaf ts
  cases h with
  | bare =>
    constructor
    · simp [Node.qualifier?, Node.nameTexts, Node.tokens_eq, hk]
    · simp [Node.firstName, hleaves, hk]
  | prefixed hcolon hlast =>
    constructor
    · simp [Node.qualifier?, Node.nameTexts, Node.tokens_eq, hk, hcolon, hlast]
    · simp [Node.firstName, hleaves, hk]

instance (i : Nat) (kind : TokenKind) (o : Outlook) : Decidable (o.TouchingAt i kind) := inferInstanceAs (Decidable (_ = true))

/-- The prefix of the name that comes next: it is the first of two names if a colon stands between them and both it and the second touch. -/
def Outlook.prefixAhead (o : Outlook) : Option String :=
  if o.TouchingAt 1 .colon ∧ o.TouchingAt 2 .name then o.ahead.head?.map (·.token.text) else none

/-- This is the prefix that is seen ahead. -/
theorem upcomingPrefix_keeps : Keeps upcomingPrefix fun found o => found = o.prefixAhead := by
  intro c
  refine ⟨(upcomingPrefix_looks c).1, ?_⟩
  unfold upcomingPrefix
  obtain ⟨b, d, he, hd, hb⟩ := (seesTouching_looks 1 .colon).keeps.peel (c := c) rfl _
  rw [he]
  cases b with
  | false =>
    have hnone : c.outlook.prefixAhead = none := if_neg fun h => nomatch hb.mpr h.1
    rw [hnone]
    rfl
  | true =>
    obtain ⟨b, e, he, hd, hb'⟩ := (seesTouching_looks 2 .name).keeps.peel hd _
    rw [if_pos rfl, he]
    cases b with
    | false =>
      have hnone : c.outlook.prefixAhead = none := if_neg fun h => nomatch hb'.mpr h.2
      rw [hnone]
      rfl
    | true =>
      have hsome : c.outlook.prefixAhead = c.ahead.head?.map (·.token.text) := if_pos ⟨hb.mp rfl, hb'.mp rfl⟩
      obtain ⟨l, hl, -⟩ := (hb.mp rfl).get
      have hahead : e.ahead = c.ahead := congrArg Reading.ahead hd
      rw [hsome, if_pos rfl]
      cases ha : c.ahead with
      | nil => simp [Reading.outlook, ha] at hl
      | cons l ls => exact congrArg some ((nextText_looks e).2.1 l ls (hahead.trans ha))

/-- Looking for the namespace of a function, of which the name comes next, reports it at that name if it is to be reported. -/
theorem checkNamespace_run (ha : c.ahead = l :: ls) (hk : l.kind = .name) (hopen : c.lastReport ≠ some l.span.start) :
    ∃ last, (checkNamespace c).2.toReading = c.toReading.reporting
      (if (c.modulePrefix.isSome && c.outlook.prefixAhead ≠ c.modulePrefix) = true then
        [⟨.functionOutsideModuleNamespace, l.span, c.outlook.prefixAhead, []⟩] else []) last := by
  obtain ⟨b, d, hrun, hd, hb⟩ := (sees_looks .name).keeps.peel (c := c) rfl fun b =>
    if b = true then nextSpan >>= fun span => upcomingPrefix >>= reportOutside span else pure ()
  have hname : c.outlook.KindAt 0 .name := by
    rw [Outlook.KindAt, Reading.outlook, ha]
    simp [hk]
  obtain rfl : b = true := hb.mpr hname
  have hspan : d.nextSpan = l.span := by
    have hahead : d.ahead = l :: ls := (congrArg Reading.ahead hd).trans ha
    rw [Cursor.nextSpan, hahead]
  have hlook : (nextSpan >>= fun span => upcomingPrefix >>= reportOutside span) d = (upcomingPrefix >>= reportOutside l.span) d.look := by
    rw [← hspan]
    rfl
  obtain ⟨found, e, hrun', he, hfound⟩ := upcomingPrefix_keeps.peel (c := d.look) hd (reportOutside l.span)
  obtain rfl : found = c.outlook.prefixAhead := hfound
  rw [checkNamespace_eq, hrun, if_pos rfl, hlook, hrun']
  have hif : reportOutside l.span c.outlook.prefixAhead e =
      (if (c.modulePrefix.isSome && decide (c.outlook.prefixAhead ≠ c.modulePrefix)) = true then
        reportAt .functionOutsideModuleNamespace l.span c.outlook.prefixAhead [] else pure ()) e := by
    have hbound : e.modulePrefix = c.modulePrefix := congrArg Reading.modulePrefix he
    rw [← hbound]
    rfl
  rw [hif]
  split
  · have hreport : (reportAt .functionOutsideModuleNamespace l.span c.outlook.prefixAhead [] e).2 =
        e.addReport l.span.start ⟨.functionOutsideModuleNamespace, l.span, c.outlook.prefixAhead, []⟩ := rfl
    have hopen : e.lastReport ≠ some l.span.start := he.symm ▸ hopen
    rw [hreport, Cursor.addReport, if_neg hopen, he]
    exact ⟨some l.span.start, rfl⟩
  · refine ⟨c.lastReport, he.trans ?_⟩
    simp [Reading.reporting]

/-- A name is read with the colon and the second name that touch it, if they do. -/
theorem expectQName_run (what : String) (ha : c.ahead = l :: ls) (hk : l.kind = .name) :
    ∃ ns, NameTrees l.token c.outlook.prefixAhead ns ∧ (expectQName what c).2.parts = c.parts ++ (leavesFor l.lead ++ [.node .qname ns]) ∧
      (expectQName what c).2.reports = c.reports ∧ (expectQName what c).2.modulePrefix = c.modulePrefix := by
  have hname : IsKind .name c.outlook.head := by
    rw [Outlook.head, Reading.outlook, ha]
    exact isKind_some.mpr hk
  obtain ⟨b, d, he, hd, hb⟩ := (sees_head .name).peel (c := c) rfl fun b => if b = true then qname >>= fun _ => pure true
    else report .expectedName what >>= fun _ => pure false
  obtain rfl : b = true := hb.mpr hname
  obtain ⟨b, d', he', hd', -⟩ := (sees_head .name).peel hd fun b => demand b .unexpectedKind >>= fun _ =>
    node .qname (take >>= fun _ => qnameRest)
  obtain ⟨-, e, he'', hed, -⟩ := (demand_keeps b .unexpectedKind).peel hd' fun _ => node .qname (take >>= fun _ => qnameRest)
  have hrun : (expectQName what c).2 = (node .qname (take >>= fun _ => qnameRest) e).2 := by
    have hqname : (expectQName what c).2 = (qname d).2 := congrArg Prod.snd he
    rw [hqname, ← he'', ← he']
    rfl
  -- The colon and the second name are looked for behind the first, and there as well as in front of it they touch or do not.
  have hprefix : c.outlook.prefixAhead = some l.token.text ∧ Outlook.Suffixed ⟨ls, c.tail, l.span.stop⟩ ∨
      c.outlook.prefixAhead = none ∧ ¬ Outlook.Suffixed ⟨ls, c.tail, l.span.stop⟩ := by
    have hsame : c.outlook.TouchingAt 1 .colon ∧ c.outlook.TouchingAt 2 .name ↔ Outlook.Suffixed ⟨ls, c.tail, l.span.stop⟩ := by
      rw [Reading.outlook, ha]
      exact Iff.rfl
    by_cases hs : Outlook.Suffixed ⟨ls, c.tail, l.span.stop⟩
    · refine .inl ⟨(if_pos (hsame.mpr hs)).trans ?_, hs⟩
      rw [Reading.outlook, ha]
      rfl
    · exact .inr ⟨if_neg fun h => hs (hsame.mp h), hs⟩
  have hahead : e.ahead = l :: ls := (congrArg Reading.ahead hed).trans ha
  have hplaced : e.placeTrivia.ahead = l.bare :: ls := by
    rw [Cursor.placeTrivia, hahead]
    rfl
  have hparts : e.placeTrivia.parts = c.parts ++ leavesFor l.lead := by
    rw [parts_placeTrivia, hed, Reading.outlook, ha]
    rfl
  have hnode : (node .qname (take >>= fun _ => qnameRest) e).2.toReading =
      { ((take >>= fun _ => qnameRest) (e.placeTrivia.startNode .qname)).2.toReading with
        parts := e.placeTrivia.parts ++ [.node .qname ((take >>= fun _ => qnameRest) (e.placeTrivia.startNode .qname)).2.parts] } := rfl
  have hreports : e.reports = c.reports := congrArg Reading.reports hed
  have hbound : e.modulePrefix = c.modulePrefix := congrArg Reading.modulePrefix hed
  rw [hrun, hnode, hparts]
  rcases qnameInside_past (c := e.placeTrivia.startNode .qname) hplaced with
    ⟨k, m, ms, rfl, ⟨hkk, hkl⟩, ⟨hmk, hml⟩, hpast⟩ | ⟨hbare, hpast⟩
  · have hs : Outlook.Suffixed ⟨k :: m :: ms, c.tail, l.span.stop⟩ :=
      ⟨by simp [Outlook.TouchingAt, hkk, hkl, Lexeme.touches], by simp [Outlook.TouchingAt, hmk, hml, Lexeme.touches]⟩
    obtain ⟨hsome, -⟩ := hprefix.resolve_right fun h => h.2 hs
    rw [hsome, hpast]
    exact ⟨_, .prefixed hkk hmk, List.append_assoc .., hreports, hbound⟩
  · obtain ⟨hnone, -⟩ := hprefix.resolve_left fun h => hbare h.2
    rw [hnone, hpast]
    exact ⟨_, .bare, List.append_assoc .., hreports, hbound⟩

/-- So what is reported of a function is what its name calls for. -/
theorem checkedName_told (what : String) (ha : c.ahead = l :: ls) (hk : l.kind = .name) (hopen : c.lastReport ≠ some l.span.start)
    (hstop : l.span.stop = l.span.start + l.token.size) :
    ∃ ns, ((checkNamespace >>= fun _ => expectQName what) c).2.parts = c.parts ++ (leavesFor l.lead ++ [.node .qname ns]) ∧
      ((checkNamespace >>= fun _ => expectQName what) c).2.reports = c.reports ++ outsiders c.modulePrefix [⟨.qname, ns, l.span.start⟩] ∧
        ((checkNamespace >>= fun _ => expectQName what) c).2.modulePrefix = c.modulePrefix := by
  obtain ⟨last, hchecked⟩ := checkNamespace_run ha hk hopen
  have hrun : (checkNamespace >>= fun _ => expectQName what) c = expectQName what (checkNamespace c).2 := rfl
  rw [hrun]
  generalize (checkNamespace c).2 = d at hchecked
  have hahead : d.ahead = l :: ls := (congrArg Reading.ahead hchecked).trans ha
  have hsame : d.outlook = c.outlook := (congrArg Reading.outlook hchecked).trans rfl
  obtain ⟨ns, hns, hparts, hreports, hbound⟩ := expectQName_run what hahead hk
  obtain ⟨hqualifier, hfirst⟩ := hns.view hk l.span.start
  rw [hsame] at hqualifier
  refine ⟨ns, ?_, ?_, ?_⟩
  · rw [hparts, hchecked]
    rfl
  · have hspan : (⟨.qname, ns, l.span.start⟩ : Node).firstName = l.span := by rw [hfirst, ← hstop]
    have houtside : (⟨.qname, ns, l.span.start⟩ : Node).outside =
        ⟨.functionOutsideModuleNamespace, l.span, c.outlook.prefixAhead, []⟩ := by rw [Node.outside, hspan, hqualifier]
    rw [hreports, hchecked, Reading.reporting, outsiders, List.filter_singleton, hqualifier]
    cases c.modulePrefix.isSome && decide (c.outlook.prefixAhead ≠ c.modulePrefix) with
    | false => rfl
    | true => exact congrArg (fun r => c.reports ++ [r]) houtside.symm
  · rw [hbound, hchecked]
    rfl

end Grammar

end QueryStubs
