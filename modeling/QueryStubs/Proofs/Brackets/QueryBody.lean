import QueryStubs.Proofs.Brackets.Partners
import QueryStubs.Proofs.Opaque.Exchanged
import QueryStubs.Proofs.Reports.Course

/-!
# Braces of a query body

A query body is read with a stack of the braces that are open, and what is told of it can be said without one: each closing brace that closes
none is reported and stands in an error of its own, and if some braces are closed by none, the last of them is reported, from there to the
end of the source (`Brackets.reports`, `Brackets.bodyParts`). All other tokens are parts of the query body themselves.

`Read` says how far that has come behind some of the tokens, `BodyRead` that a reading has come there. Every round of the loop keeps it so
(`BodyRead.step`), and so the whole loop does (`BodyRead.loop`). Main result: `Parsed.braces_of_body`.
-/

namespace QueryStubs

open Grammar
open QueryStubs.Tree (constructs leavesOf)

/-- The range of the token at `j` in a row of tokens that starts at a place. -/
def Token.spanAt (start : Nat) (ts : List Token) (j : Nat) : Span := ⟨start + sizeOf (ts.take j), start + sizeOf (ts.take (j + 1))⟩

/-- What is reported of a closing brace that closes none. -/
def Diagnostic.unmatchedBrace (brace : Span) : Diagnostic := ⟨.unmatchedDelimiter, brace, some "`\x7d`", []⟩

/-- What is reported of a brace that is closed by none, in a source that ends at `limit`. -/
def Diagnostic.unclosedBrace (limit : Nat) (brace : Span) : Diagnostic :=
  ⟨.unclosedBody, ⟨brace.start, limit⟩, none, [⟨"brace opened here", brace⟩]⟩

namespace Grammar.Brackets

variable {start limit : Nat} {ts us : List Token} {t : Token} {stack : List Span} {parts : List Tree} {told : List Diagnostic} {row : List Nat}

/-- What is reported of the closing braces among some tokens that close none, in order. -/
def unmatched (start : Nat) (ts : List Token) : List Diagnostic :=
  (braces.loneCloses (ts.map (·.kind))).map fun j => .unmatchedBrace (Token.spanAt start ts j)

/-- What is reported of the braces among some tokens that reach to the end of a source: which of them close none, and then the last of those
that are closed by none, if there is one. -/
def reports (limit start : Nat) (ts : List Token) : List Diagnostic :=
  unmatched start ts ++ ((braces.loneOpens (ts.map (·.kind))).getLast?.map fun i => .unclosedBrace limit (Token.spanAt start ts i)).toList

/-- Some tokens as parts of a query body: a closing brace that closes none stands in an error of its own. -/
def bodyParts (ts : List Token) : List Tree :=
  ts.mapIdx fun j t => if braces.LoneClose (ts.map (·.kind)) j then .node .error [.leaf t] else .leaf t

/-! ## One token more -/

theorem spanAt_append {j : Nat} (hj : j < ts.length) : Token.spanAt start (ts ++ us) j = Token.spanAt start ts j := by
  rw [Token.spanAt, List.take_append_of_le_length (Nat.le_of_lt hj), List.take_append_of_le_length (Nat.succ_le_of_lt hj)]
  rfl

theorem spanAt_concat : Token.spanAt start (ts ++ [t]) ts.length = ⟨start + Token.sizeOf ts, start + Token.sizeOf ts + t.size⟩ := by
  have hall : (ts ++ [t]).take (ts.length + 1) = ts ++ [t] := List.take_of_length_le (by simp)
  rw [Token.spanAt, List.take_left, hall, Token.sizeOf_append, Token.sizeOf_cons, Token.sizeOf_nil, Nat.add_zero, Nat.add_assoc]

theorem bodyParts_concat : bodyParts (ts ++ [t]) =
    bodyParts ts ++ [if braces.LoneClose (ts.map (·.kind) ++ [t.kind]) ts.length then .node .error [.leaf t] else .leaf t] := by
  have hfront : (ts.mapIdx fun j t' => if braces.LoneClose (ts.map (·.kind) ++ [t.kind]) j then Tree.node .error [.leaf t'] else .leaf t') =
      bodyParts ts := by
    refine List.ext_getElem (by simp [bodyParts]) fun j hj hj' => ?_
    have hlt : j < (ts.map (·.kind)).length := by simpa using hj
    simp only [bodyParts, List.getElem_mapIdx, loneClose_append hlt]
  rw [bodyParts, List.map_append, List.map_singleton, List.mapIdx_concat, hfront]

theorem unmatched_concat : unmatched start (ts ++ [t]) = unmatched start ts ++
    if braces.LoneClose (ts.map (·.kind) ++ [t.kind]) ts.length then
      [.unmatchedBrace ⟨start + Token.sizeOf ts, start + Token.sizeOf ts + t.size⟩] else [] := by
  have hfront : (braces.loneCloses (ts.map (·.kind))).map (fun j => Diagnostic.unmatchedBrace (Token.spanAt start (ts ++ [t]) j)) =
      unmatched start ts := by
    refine List.map_congr_left fun j hj => ?_
    have hlt : j < (ts.map (·.kind)).length := List.mem_range.mp (List.mem_filter.mp hj).1
    rw [List.length_map] at hlt
    rw [spanAt_append hlt]
  rw [unmatched, List.map_append, List.map_singleton, loneCloses_concat, List.map_append, hfront, List.length_map]
  split
  · rw [List.map_singleton, spanAt_concat]
  · rfl

/-! ## How far a query body is read -/

/-- Some tokens that start at a place are read: these braces are open, innermost first, these are the parts, and this was told. -/
structure Read (start : Nat) (ts : List Token) (stack : List Span) (parts : List Tree) (told : List Diagnostic) : Prop where
  stack_eq : ∃ row, braces.OpenRow (ts.map (·.kind)) row ∧ stack = row.map (Token.spanAt start ts)
  parts_eq : parts = bodyParts ts
  told_eq : told = unmatched start ts

namespace Read

theorem nil : Read start [] [] [] [] := ⟨⟨[], .nil, rfl⟩, rfl, rfl⟩

/-- The braces that are open have the ranges they had when there is one token more. -/
theorem map_spanAt (h : braces.OpenRow (ts.map (·.kind)) row) :
    row.map (Token.spanAt start (ts ++ [t])) = row.map (Token.spanAt start ts) := by
  refine List.map_congr_left fun i hi => spanAt_append ?_
  obtain ⟨m, hm⟩ := List.mem_iff_getElem?.mp hi
  have hlt := ((h m i).mp hm).lt
  rwa [List.length_map] at hlt

/-- A token is a part itself, and nothing is told of it, if it is no closing brace that closes none. -/
theorem concat (h : Read start ts stack parts told) (hrow : braces.OpenRow (ts.map (·.kind) ++ [t.kind]) row)
    (hnot : ¬ braces.LoneClose (ts.map (·.kind) ++ [t.kind]) (ts.map (·.kind)).length) :
    Read start (ts ++ [t]) (row.map (Token.spanAt start (ts ++ [t]))) (parts ++ [.leaf t]) told := by
  rw [List.length_map] at hnot
  refine ⟨⟨row, ?_, rfl⟩, ?_, ?_⟩
  · rw [List.map_append, List.map_singleton]
    exact hrow
  · rw [bodyParts_concat, if_neg hnot, h.parts_eq]
  · rw [unmatched_concat, if_neg hnot, List.append_nil, h.told_eq]

theorem opening (h : Read start ts stack parts told) (hk : t.kind = .braceOpen) :
    Read start (ts ++ [t]) (⟨start + Token.sizeOf ts, start + Token.sizeOf ts + t.size⟩ :: stack) (parts ++ [.leaf t]) told := by
  obtain ⟨row, hrow, rfl⟩ := h.stack_eq
  have hopens : braces.opens t.kind = true := decide_eq_true hk
  have hread := h.concat (hrow.opening hopens) (not_loneClose_concat (braces.apart _ hopens))
  rw [List.map_cons, List.length_map, spanAt_concat, map_spanAt hrow] at hread
  exact hread

theorem closing {opened : Span} (h : Read start ts (opened :: stack) parts told) (hk : t.kind = .braceClose) :
    Read start (ts ++ [t]) stack (parts ++ [.leaf t]) told := by
  obtain ⟨row, hrow, hstack⟩ := h.stack_eq
  obtain ⟨i, row, rfl, -, rfl⟩ := List.map_eq_cons_iff.mp hstack.symm
  have hcloses : braces.closes t.kind = true := decide_eq_true hk
  have hread := h.concat (hrow.closing hcloses) fun hlone => nomatch (loneClose_concat hrow hcloses).mp hlone
  have hsame : (i :: row).map (Token.spanAt start (ts ++ [t])) = (i :: row).map (Token.spanAt start ts) := map_spanAt hrow
  rw [List.map_cons, List.map_cons] at hsame
  rw [List.tail_cons, (List.cons.inj hsame).2] at hread
  exact hread

theorem other (h : Read start ts stack parts told) (ho : t.kind ≠ .braceOpen) (hc : t.kind ≠ .braceClose) :
    Read start (ts ++ [t]) stack (parts ++ [.leaf t]) told := by
  obtain ⟨row, hrow, rfl⟩ := h.stack_eq
  have hcloses : braces.closes t.kind = false := decide_eq_false hc
  have hread := h.concat (hrow.other (decide_eq_false ho) hcloses) (not_loneClose_concat hcloses)
  rw [map_spanAt hrow] at hread
  exact hread

/-- So it is with the next lexeme if it is no closing brace where none is open. -/
theorem taken (h : Read start ts stack parts told) {l : Lexeme} (hn : ¬ (stack = [] ∧ EndsBraces l.kind))
    (hspan : l.span = ⟨start + Token.sizeOf ts, start + Token.sizeOf ts + l.token.size⟩) :
    Read start (ts ++ [l.token]) (bracesAfter stack l) (parts ++ [.leaf l.token]) told := by
  unfold bracesAfter
  split_ifs with ho hc
  · rw [hspan]
    exact h.opening ho
  · cases stack with
    | nil => exact absurd ⟨rfl, decide_eq_false ho, .inl (decide_eq_true hc)⟩ hn
    | cons opened stack => exact h.closing hc
  · exact h.other ho hc

/-- A closing brace where none is open stands in an error and is reported. -/
theorem lone (h : Read start ts [] parts told) (hk : t.kind = .braceClose) :
    Read start (ts ++ [t]) [] (parts ++ [.node .error [.leaf t]])
      (told ++ [.unmatchedBrace ⟨start + Token.sizeOf ts, start + Token.sizeOf ts + t.size⟩]) := by
  obtain ⟨row, hrow, hstack⟩ := h.stack_eq
  obtain rfl : row = [] := List.map_eq_nil_iff.mp hstack.symm
  have hcloses : braces.closes t.kind = true := decide_eq_true hk
  have hlone := (loneClose_concat hrow hcloses).mpr rfl
  rw [List.length_map] at hlone
  refine ⟨⟨[], ?_, rfl⟩, ?_, ?_⟩
  · rw [List.map_append, List.map_singleton]
    exact hrow.closing hcloses
  · rw [bodyParts_concat, if_pos hlone, h.parts_eq]
  · rw [unmatched_concat, if_pos hlone, h.told_eq]

/-- Trivia are parts themselves. -/
theorem trivia (h : Read start ts stack parts told) {w : List Token} (hw : Token.AllTrivia w) :
    Read start (ts ++ w) stack (parts ++ leavesFor w) told := by
  induction w generalizing ts parts with
  | nil =>
    rw [leavesFor, List.map_nil, List.append_nil, List.append_nil]
    exact h
  | cons t w ih =>
    obtain ⟨ht, hw⟩ := List.forall_mem_cons.mp hw
    have hne : ∀ kind : TokenKind, kind.isTrivia = false → t.kind ≠ kind := fun kind hk he => by
      rw [Token.isTrivia, he, hk] at ht
      cases ht
    have hread := ih (h.other (hne .braceOpen rfl) (hne .braceClose rfl)) hw
    rw [List.append_assoc, List.append_assoc] at hread
    exact hread

/-- At the end of the source the innermost brace that is open is told as well. -/
theorem reports_eq (h : Read start ts stack parts told) :
    told ++ (stack.head?.map (Diagnostic.unclosedBrace limit)).toList = reports limit start ts := by
  obtain ⟨row, hrow, rfl⟩ := h.stack_eq
  rw [reports, h.told_eq, loneOpens_eq hrow, List.getLast?_reverse, List.head?_map, Option.map_map]
  rfl

end Read

end Grammar.Brackets

namespace Grammar

/-! ## The loop -/

/-- A node of one lexeme stands behind the trivia in front of it. -/
theorem node_take (kind : NodeKind) {c : Cursor} {l : Lexeme} {ls : List Lexeme} (ha : c.ahead = l :: ls) :
    (node kind take c).2.toReading = c.toReading.past (leavesFor l.lead ++ [.node kind [.leaf l.token]]) [l] ls := by
  obtain ⟨⟨parts, ahead, tail, limit, reached, reports, lastReport, modulePrefix⟩, patience, defects, builder⟩ := c
  obtain rfl : ahead = l :: ls := ha
  simp only [Reading.past, ← List.append_assoc]
  rfl

/-- Where none is open, a closing brace is reported if the last report was made elsewhere, and stands in an error of its own. -/
theorem queryBodyStep_lone {c : Cursor} {l : Lexeme} {ls : List Lexeme} (ha : c.ahead = l :: ls) (hk : l.kind = .braceClose)
    (hlast : c.lastReport ≠ some l.span.start) :
    ∃ d, queryBodyStep [] c = ((true, []), d) ∧ Cursor.toReading d =
      { c.toReading.past (leavesFor l.lead ++ [.node .error [.leaf l.token]]) [l] ls with
        reports := c.reports ++ [.unmatchedBrace l.span]
        lastReport := some l.span.start } := by
  unfold queryBodyStep
  obtain ⟨kind, d, he, hd, hkind⟩ := nextKind_looks.keeps.peel (c := c) rfl _
  rw [he]
  have hkind : kind = some .braceClose := by simpa [Reading.outlook, ha, hk] using hkind
  subst hkind
  have hspan : d.nextSpan = l.span := by
    rw [Cursor.nextSpan, show d.ahead = l :: ls from (congrArg Reading.ahead hd).trans ha]
  have hreport : d.look.addReport d.nextSpan.start (.unmatchedBrace d.nextSpan) =
      { d.look with reports := d.reports ++ [.unmatchedBrace l.span], lastReport := some l.span.start } := by
    have hopen : d.look.lastReport ≠ some l.span.start := (congrArg Reading.lastReport hd).trans_ne hlast
    rw [hspan, Cursor.addReport, if_neg hopen]
    rfl
  refine ⟨(node .error take (d.look.addReport d.nextSpan.start (.unmatchedBrace d.nextSpan))).2, rfl, ?_⟩
  rw [hreport, ← hd]
  exact node_take .error ((congrArg Reading.ahead hd).trans ha)

/-- At the end of the source the innermost brace that is open is reported if the last report was made elsewhere. -/
theorem closeBody_end (stack : List Span) {c : Cursor} (ha : c.ahead = []) (hlast : c.lastReport ≠ some c.limit) :
    (closeBody stack c).2.parts = c.parts ∧
      (closeBody stack c).2.reports = c.reports ++ (stack.head?.map (Diagnostic.unclosedBrace c.limit)).toList := by
  cases stack with
  | nil => exact ⟨rfl, (List.append_nil _).symm⟩
  | cons opening outer =>
    have hspan : c.nextSpan = .empty c.limit := by rw [Cursor.nextSpan, ha]
    have hrun : (closeBody (opening :: outer) c).2 =
        (c.look.demand (decide (opening.start ≤ c.nextSpan.stop)) .reversedSpan).addReport c.nextSpan.start
          ⟨.unclosedBody, ⟨opening.start, c.nextSpan.stop⟩, none, [⟨"brace opened here", opening⟩]⟩ := rfl
    have hdemand : (c.look.demand (decide (opening.start ≤ c.nextSpan.stop)) .reversedSpan).toReading = c.toReading := by
      unfold Cursor.demand
      split <;> rfl
    rw [hrun]
    generalize c.look.demand (decide (opening.start ≤ c.nextSpan.stop)) .reversedSpan = d at hdemand
    have hopen : d.lastReport ≠ some c.nextSpan.start := by
      rw [hspan, hdemand]
      exact hlast
    rw [Cursor.addReport, if_neg hopen, hdemand, hspan]
    exact ⟨rfl, rfl⟩

/-- A query body that starts at a place is read behind some of its tokens, with these braces open, and `before` was told in front of it. -/
structure BodyRead (limit : Nat) (before : List Diagnostic) (start : Nat) (ts : List Token) (stack : List Span) (s : Reading) : Prop where
  read : ∃ told, s.reports = before ++ told ∧ Brackets.Read start ts stack s.parts told
  cut : Lexeme.split (start + Token.sizeOf ts) [] s.left = (s.ahead, s.tail)
  sized : ∀ t ∈ s.left, 0 < t.size
  limit_eq : s.limit = limit
  size_eq : start + Token.sizeOf ts + Token.sizeOf s.left = limit
  last : ∀ place, s.lastReport = some place → place < start + Token.sizeOf ts

namespace BodyRead

variable {limit start : Nat} {before : List Diagnostic} {ts : List Token} {stack stack' : List Span} {s s' : Reading} {l : Lexeme}
  {ls : List Lexeme}

/-- What comes next stands behind its trivia. -/
theorem next (h : BodyRead limit before start ts stack s) (ha : s.ahead = l :: ls) : Token.AllTrivia l.lead ∧ 0 < l.token.size ∧
    l.span = ⟨start + Token.sizeOf (ts ++ l.lead), start + Token.sizeOf (ts ++ l.lead) + l.token.size⟩ := by
  have hcut := h.cut
  rw [ha] at hcut
  obtain ⟨hstart, hstop, -, -⟩ := split_behind hcut
  have hleads := (Lexeme.allTrivia_split (start + Token.sizeOf ts) [] s.left .nil).1
  rw [hcut] at hleads
  have hleft : s.left = l.lead ++ l.token :: (ls.flatMap Lexeme.tokens ++ s.tail) := by simp [Reading.left, ha, Lexeme.tokens]
  have hplace : l.span.start = start + Token.sizeOf (ts ++ l.lead) := by
    rw [Token.sizeOf_nil] at hstart
    rw [Token.sizeOf_append]
    omega
  exact ⟨(hleads l (List.mem_cons_self ..)).1, h.sized _ (by simp [hleft]), by rw [← hplace, ← hstop]⟩

/-- Behind the next lexeme the same is known if its tokens are read and no later report was made. -/
theorem past (h : BodyRead limit before start ts stack s) (ha : s.ahead = l :: ls) (hahead : s'.ahead = ls) (htail : s'.tail = s.tail)
    (hlimit : s'.limit = s.limit) (hread : ∃ told, s'.reports = before ++ told ∧ Brackets.Read start (ts ++ l.tokens) stack' s'.parts told)
    (hlast : s'.lastReport = s.lastReport ∨ s'.lastReport = some l.span.start) :
    BodyRead limit before start (ts ++ l.tokens) stack' s' := by
  obtain ⟨-, hpos, hspan⟩ := h.next ha
  have hcut := h.cut
  rw [ha] at hcut
  obtain ⟨-, -, -, hrest⟩ := split_behind hcut
  have hleft : s.left = l.tokens ++ s'.left := by simp [Reading.left, ha, hahead, htail]
  have hsize : l.span.stop = start + Token.sizeOf (ts ++ l.tokens) := by simp [hspan, Lexeme.tokens, Nat.add_assoc]
  refine ⟨hread, ?_, fun t ht => h.sized t (by simp [hleft, ht]), hlimit.trans h.limit_eq, ?_, fun place hplace => ?_⟩
  · rw [← hsize, hahead, htail, Reading.left, hahead, htail]
    exact hrest
  · have hsum := h.size_eq
    rw [hleft, Token.sizeOf_append] at hsum
    rw [Token.sizeOf_append]
    omega
  · rw [← hsize]
    rcases hlast with hsame | hnew
    · have hlt := h.last place (hsame.symm.trans hplace)
      rw [hspan, Token.sizeOf_append]
      dsimp only
      omega
    · obtain rfl : l.span.start = place := Option.some.inj (hnew.symm.trans hplace)
      rw [hspan]
      dsimp only
      omega

/-- A round of the loop moves past the next lexeme. -/
theorem step {c : Cursor} (h : BodyRead limit before start ts stack c.toReading) (ha : c.ahead = l :: ls) :
    ∃ stack' d, queryBodyStep stack c = ((true, stack'), d) ∧ d.ahead = ls ∧
      BodyRead limit before start (ts ++ l.tokens) stack' d.toReading := by
  obtain ⟨told, hreports, hread⟩ := h.read
  obtain ⟨hlead, -, hspan⟩ := h.next ha
  have hread := hread.trivia hlead
  by_cases hlone : stack = [] ∧ EndsBraces l.kind
  · obtain ⟨rfl, -, hends⟩ := hlone
    have hk : l.kind = .braceClose := of_decide_eq_true (hends.resolve_right Bool.false_ne_true)
    have hlast : c.lastReport ≠ some l.span.start := fun hsome => by
      have hlt := h.last _ hsome
      rw [hspan, Token.sizeOf_append] at hlt
      dsimp only at hlt
      omega
    obtain ⟨d, hrun, hd⟩ := queryBodyStep_lone ha hk hlast
    refine ⟨[], d, hrun, congrArg Reading.ahead hd, hd ▸ h.past ha rfl rfl rfl ⟨told ++ [.unmatchedBrace l.span], ?_, ?_⟩ (.inr rfl)⟩
    · rw [← List.append_assoc, ← hreports]
    · have hlone := hread.lone hk
      rw [List.append_assoc, List.append_assoc, ← hspan] at hlone
      exact hlone
  · obtain ⟨d, hrun, hd⟩ := queryBodyStep_past ha hlone
    refine ⟨_, d, hrun, congrArg Reading.ahead hd, hd ▸ h.past ha rfl rfl rfl ⟨told, hreports, ?_⟩ (.inl rfl)⟩
    have htaken := hread.taken hlone hspan
    rw [List.append_assoc, List.append_assoc, ← leavesFor_tokens] at htaken
    exact htaken

/-- The loop reads all that is left. -/
theorem loop {c : Cursor} (h : BodyRead limit before start ts stack c.toReading) :
    ∃ w stack' d, repeatRule queryBodyStep stack c = (stack', d) ∧ d.ahead = [] ∧ BodyRead limit before start (ts ++ w) stack' d.toReading := by
  induction hn : c.ahead generalizing ts stack c with
  | nil =>
    obtain ⟨d, hrun, hd⟩ := queryBodyStep_done stack hn
    refine ⟨[], stack, d, repeatRule_done hrun, (congrArg Reading.ahead hd).trans hn, ?_⟩
    rw [List.append_nil]
    exact hd ▸ h
  | cons l ls ih =>
    obtain ⟨stack', d, hrun, hd, hread⟩ := h.step hn
    obtain ⟨w, stack'', e, hloop, he, hread⟩ := ih hread hd
    have hlt : d.ahead.length < c.ahead.length := by simp [hd, hn]
    refine ⟨l.tokens ++ w, stack'', e, ?_, he, ?_⟩
    · rw [repeatRule, hrun, ← hloop]
      exact if_pos hlt
    · rw [← List.append_assoc]
      exact hread

/-- What is told of the braces of a query body is told, and nothing else. -/
theorem body {c : Cursor} (h : BodyRead limit before start [] [] c.toReading) :
    ∃ ts, ((repeatRule queryBodyStep [] >>= closeBody) c).2.parts = Brackets.bodyParts ts ∧
      ((repeatRule queryBodyStep [] >>= closeBody) c).2.reports = before ++ Brackets.reports limit start ts := by
  obtain ⟨ts, stack, d, hloop, hd, hread⟩ := h.loop
  rw [List.nil_append] at hread
  obtain ⟨told, hreports, hparts⟩ := hread.read
  have hlast : d.lastReport ≠ some d.limit := fun hsome => by
    have hlt := hread.last _ hsome
    have hsum := hread.size_eq
    rw [hread.limit_eq] at hlt
    omega
  obtain ⟨hsame, htold⟩ := closeBody_end stack hd hlast
  refine ⟨ts, ?_, ?_⟩
  · rw [bind_run, hloop, hsame]
    exact hparts.parts_eq
  · rw [bind_run, hloop, htold, hreports, List.append_assoc, hread.limit_eq, hparts.reports_eq]

end BodyRead

/-! ## Query bodies -/

/-- Whatever is left makes one query body, behind the trivia that come first. -/
theorem queryBody_node {c : Cursor} (hne : c.ahead ≠ []) : ∃ d : Cursor, d.toReading = { c.placeTrivia.toReading with parts := [] } ∧
    (queryBody c).2.parts = c.placeTrivia.parts ++ [.node .queryBody ((repeatRule queryBodyStep [] >>= closeBody) d).2.parts] ∧
      (queryBody c).2.reports = ((repeatRule queryBodyStep [] >>= closeBody) d).2.reports := by
  unfold queryBody
  obtain ⟨_, d, he, hd, -⟩ := nextKind_looks.keeps.peel (c := c) rfl _
  obtain ⟨b, e, he', hd', hb⟩ := atEnd_looks.keeps.peel hd _
  have hb : b = false := Bool.not_eq_true _ ▸ fun h => hne (hb.mp h)
  have hplaced : e.placeTrivia.toReading = c.placeTrivia.toReading := by
    obtain ⟨s, patience, defects, builder⟩ := e
    obtain rfl : s = c.toReading := hd'
    rfl
  rw [he, he', hb]
  exact ⟨e.placeTrivia.startNode .queryBody, by rw [← hplaced, Cursor.toReading_startNode], congrArg (·.parts ++ _) hplaced, rfl⟩

/-- A source is as long as its tokens. -/
theorem limit_eq_size (source : String) : source.utf8ByteSize = Token.sizeOf (Token.ofSource source) := (start_stands source).1

/-- Behind the prolog of a main module a query body is about to be read. -/
theorem AtBody.bodyRead {source : String} {c : Cursor} (h : AtBody source c) (hne : c.ahead ≠ []) :
    BodyRead source.utf8ByteSize c.reports c.account.next.start [] [] { c.placeTrivia.toReading with parts := [] } ∧
      c.account.next.start = Token.sizeOf (leavesOf c.placeTrivia.parts) := by
  obtain ⟨hlimit, behind, htokens, -, hcut⟩ := h.stands.placeTrivia
  have htotal := limit_eq_size source
  have hsize : Token.sizeOf behind + Token.sizeOf c.placeTrivia.left = source.utf8ByteSize := by
    rw [htotal, htokens, Token.sizeOf_append]
  have hplace := (size_placeTrivia c).trans h.place
  have hnext : c.account.next.start = Token.sizeOf behind := by
    obtain ⟨l, ls, ha⟩ := List.exists_cons_of_ne_nil hne
    have hahead : c.placeTrivia.ahead = { l with lead := [] } :: ls := by rw [Cursor.placeTrivia, ha]
    rw [hahead] at hcut
    obtain ⟨hstart, -⟩ := split_behind hcut
    rw [next_account, Cursor.nextSpan, ha]
    exact hstart
  refine ⟨⟨⟨[], (List.append_nil _).symm, .nil⟩, ?_, ?_, hlimit.trans htotal.symm, ?_, fun place hp => ?_⟩, ?_⟩
  · rw [Token.sizeOf_nil, Nat.add_zero, hnext]
    exact hcut
  · intro t ht
    have hmem : t ∈ Token.ofSource source := by
      rw [htokens]
      exact List.mem_append_right _ ht
    exact Token.size_pos_of_scan source.toList t hmem
  · rw [Token.sizeOf_nil, Nat.add_zero, hnext]
    exact hsize
  · have hle := h.steady.last place hp
    have hopen := h.isOpen hne
    rw [Token.sizeOf_nil, Nat.add_zero]
    refine Nat.lt_of_le_of_ne hle ?_
    rintro rfl
    exact hopen hp
  · rw [hnext]
    omega

end Grammar

/-- Whatever stands in errors, the leaves of a query body are its tokens. -/
theorem Grammar.Brackets.leaves_bodyParts (ts : List Token) : leavesOf (Brackets.bodyParts ts) = ts := by
  induction ts using List.reverseRecOn with
  | nil => simp [Brackets.bodyParts, leavesOf]
  | append_singleton ts t ih =>
    rw [Brackets.bodyParts_concat, Tree.leavesOf_append, ih]
    split <;> simp [leavesOf]

/-- All that is told of braces are errors. -/
theorem Grammar.Brackets.isError_reports {limit start : Nat} {ts : List Token} : ∀ r ∈ Brackets.reports limit start ts, r.isError = true := by
  intro r hr
  rcases List.mem_append.mp hr with hr | hr
  · obtain ⟨j, -, rfl⟩ := List.mem_map.mp hr
    rfl
  · obtain ⟨i, -, rfl⟩ := Option.map_eq_some_iff.mp (Option.mem_toList.mp hr)
    rfl

namespace Parsed

variable {source : String}

/-- In a main module without a query body nothing is reported behind the prolog. In one with a query body what is told of its braces is,
and all that is reported before starts before it. -/
theorem told_of_main (h : (ofSource source).root.isLibrary = false) :
    (ofSource source).root.queryBody? = none ∧ (ofSource source).reports = (Cursor.mainBody source).reports ∨
      ∃ body, (ofSource source).root.queryBody? = some body ∧ body.children = Brackets.bodyParts body.leaves ∧
        (ofSource source).reports = (Cursor.mainBody source).reports ++ Brackets.reports source.utf8ByteSize body.start body.leaves ∧
          ∀ r ∈ (Cursor.mainBody source).reports, r.span.start < body.start := by
  rw [isLibrary_eq] at h
  have hbody := atBody source
  have hreports : (ofSource source).reports = (queryBody (.mainBody source)).2.reports := by
    rw [reports_eq, afterVersion_main h]
    rfl
  have hchildren : (ofSource source).root.children =
      (queryBody (.mainBody source)).2.parts ++ leavesFor (queryBody (.mainBody source)).2.outlook.trivia := by
    rw [root, tree_eq, afterVersion_main h, ← parts_placeTrivia]
    rfl
  have hstart : (ofSource source).root.start = 0 := by rw [root, tree_eq]; rfl
  have hfronts : ∀ x ∈ constructs (Cursor.mainBody source).parts, x.1 ≠ .queryBody := fun x hx => by
    rcases hbody.fronts x hx with hk | hk <;> simp [hk]
  by_cases hne : (Cursor.mainBody source).ahead = []
  · have hsame := queryBody_end hne
    refine .inl ⟨?_, hreports.trans (congrArg Reading.reports hsame)⟩
    have hfind : (constructs (ofSource source).root.children).find? (·.1 = .queryBody) = none := by
      rw [hchildren, congrArg Reading.parts hsame, Tree.constructs_append, Tree.constructs_leavesFor, List.append_nil, List.find?_eq_none]
      exact fun x hx => by simp [hfronts x hx]
    rw [← Node.child?_eq] at hfind
    exact Option.map_eq_none_iff.mp hfind
  · obtain ⟨hread, hplace⟩ := hbody.bodyRead hne
    obtain ⟨d, hd, hparts, hsame⟩ := queryBody_node hne
    obtain ⟨ts, hts, htold⟩ := (hd.symm ▸ hread : BodyRead _ _ _ _ _ d.toReading).body
    rw [hts] at hparts
    rw [hparts, List.append_assoc] at hchildren
    have hfronts : ∀ x ∈ constructs (Cursor.mainBody source).placeTrivia.parts, x.1 ≠ .queryBody := by
      rw [parts_placeTrivia, Tree.constructs_append, Tree.constructs_leavesFor, List.append_nil]
      exact hfronts
    have hsome := Node.child?_behind hchildren hfronts
    rw [hstart, Nat.zero_add, ← hplace] at hsome
    refine .inr ⟨_, hsome, ?_, ?_, hbody.before.resolve_left hne⟩
    · rw [Node.leaves, Brackets.leaves_bodyParts]
    · rw [Node.leaves, Brackets.leaves_bodyParts, hreports, hsame, htold]

end Parsed

end QueryStubs
