import QueryStubs.Diagnostic.Snippet
import QueryStubs.Proofs.Reports.Order

/-!
# Ranges that can be rendered

Every range of every report of a source lies within the source, and characters begin or end where it does. It is about whole tokens, unless it
is the empty range at the end of the source. What is marked for it when it is rendered lies within the source as well. And a report of a
bracket that was never closed reaches from that bracket to the end, and names it (`Parsed.ranges_renderable`).
-/

namespace QueryStubs

open Grammar

namespace Span

variable {source : String} {s : Span}

/-- A range within a source, of which both ends are where characters begin or end. -/
structure Within (source : String) (s : Span) : Prop where
  forward : s.start ≤ s.stop
  stop_le : s.stop ≤ source.utf8ByteSize
  start_valid : String.Pos.Raw.IsValid source ⟨s.start⟩
  stop_valid : String.Pos.Raw.IsValid source ⟨s.stop⟩

/-- The empty range at the end of a source is within it. -/
theorem within_end (source : String) : Within source (.empty source.utf8ByteSize) :=
  ⟨Nat.le_refl _, Nat.le_refl _, String.Pos.Raw.isValid_rawEndPos, String.Pos.Raw.isValid_rawEndPos⟩

/-- What is marked for a range is the range itself, if it is not empty or at the end of the source. -/
theorem adjusted_eq {limit : Nat} (h : s.start < s.stop ∨ s = .empty limit) : s.adjusted limit = s := by
  unfold adjusted
  rcases h with hlt | rfl
  · exact if_neg (Nat.ne_of_lt hlt)
  · exact (if_pos rfl).trans (congrArg (Span.mk limit) (Nat.min_eq_right (Nat.le_succ limit)))

end Span

/-- A report that can be rendered for a source: each of its ranges is about whole tokens and not empty, or it is the empty one at the end, and
it lies within the source, as what is marked for it does. And if the report says that a bracket was never closed, it reaches from that
bracket to the end, and it is related to the bracket. -/
structure Diagnostic.Renderable (source : String) (r : Diagnostic) : Prop where
  placed : ∀ s ∈ r.span :: r.related.map (·.span),
    s = .empty source.utf8ByteSize ∨ Token.Row (Token.ofSource source) s ∧ s.start < s.stop
  within : ∀ s ∈ r.span :: r.related.map (·.span), s.Within source ∧ (s.adjusted source.utf8ByteSize).Within source
  unclosed : r.kind.isStructural = true → ∃ note opening t, Token.At (Token.ofSource source) t opening ∧ r.kind.isAbout t.kind = true ∧
    r.span = ⟨opening.start, source.utf8ByteSize⟩ ∧ r.related = [⟨note, opening⟩]

/-- A report can be rendered if its ranges are about whole tokens or about the end. -/
theorem Diagnostic.Placed.renderable {source : String} {r : Diagnostic} (h : r.Placed (Token.ofSource source)) : r.Renderable source := by
  have hlimit : Token.sizeOf (Token.ofSource source) = source.utf8ByteSize := by rw [Token.sizeOf_eq, Token.textOf_ofSource]
  have hplaced : ∀ s ∈ r.span :: r.related.map (·.span),
      s = .empty source.utf8ByteSize ∨ Token.Row (Token.ofSource source) s ∧ s.start < s.stop := by
    have hrow : ∀ {s}, Token.Row (Token.ofSource source) s →
        s = .empty source.utf8ByteSize ∨ Token.Row (Token.ofSource source) s ∧ s.start < s.stop :=
      fun h => .inr ⟨h, (h.bounds (Token.size_pos_of_scan _)).1⟩
    cases h with
    | point _ hspan =>
      refine List.forall_mem_singleton.mpr ?_
      rcases hspan with rfl | ⟨t, ht⟩
      · exact .inl (congrArg Span.empty hlimit)
      · exact hrow ht.row
    | unclosed _ hbracket =>
      obtain ⟨t, -, ht⟩ := hbracket
      exact List.forall_mem_cons.mpr ⟨hrow ht.row_to_end, List.forall_mem_singleton.mpr (hrow ht.row)⟩
    | misplaced hspan hfirst => exact List.forall_mem_cons.mpr ⟨hrow hspan, List.forall_mem_singleton.mpr (hrow hfirst)⟩
  refine ⟨hplaced, fun s hs => ?_, fun hk => ?_⟩
  · have hwithin : s.Within source := by
      rcases hplaced s hs with rfl | ⟨hrow, hlt⟩
      · exact Span.within_end source
      · obtain ⟨text, hcuts⟩ := hrow.cuts
        have hstop := (hrow.bounds (Token.size_pos_of_scan _)).2
        rw [Token.textOf_ofSource] at hcuts
        exact ⟨Nat.le_of_lt hlt, hlimit ▸ hstop, hcuts.start_valid, hcuts.stop_valid⟩
    rw [Span.adjusted_eq ((hplaced s hs).symm.imp_left And.right)]
    exact ⟨hwithin, hwithin⟩
  · cases h with
    | point hs _ => exact nomatch hs.symm.trans hk
    | unclosed hkind hbracket =>
      obtain ⟨t, rfl, ht⟩ := hbracket
      exact ⟨_, _, t, ht, hkind, by rw [hlimit], rfl⟩
    | misplaced => cases hk

namespace Parsed

/-- Every report of every source can be rendered, and offsets of 32 bits are enough for its ranges as long as they can tell the places of the
source apart. -/
theorem ranges_renderable {source : String} (h : Addressable source) :
    wrapped? source = some (ofSource source) ∧ ∀ r ∈ (ofSource source).reports, r.Renderable source := by
  obtain ⟨prolog, hreported⟩ := reported source
  exact ⟨wrapped?_eq h, fun r hr => (hreported.placed r hr).renderable⟩

/-- A bracket that is never closed, in front of a character of two bytes. -/
theorem ranges_renderable_unclosed :
    Addressable "declare variable $x := ( 'ö'" ∧
      ⟨.unclosedParens, ⟨23, 29⟩, none, [⟨"opened here", ⟨23, 24⟩⟩]⟩ ∈ (ofSource "declare variable $x := ( 'ö'").reports ∧
        Diagnostic.Renderable "declare variable $x := ( 'ö'" ⟨.unclosedParens, ⟨23, 29⟩, none, [⟨"opened here", ⟨23, 24⟩⟩]⟩ := by
  have h : ⟨.unclosedParens, ⟨23, 29⟩, none, [⟨"opened here", ⟨23, 24⟩⟩]⟩ ∈ (ofSource "declare variable $x := ( 'ö'").reports := by
    have hreports : (ofSource "declare variable $x := ( 'ö'").reports =
        [⟨.unclosedParens, ⟨23, 29⟩, none, [⟨"opened here", ⟨23, 24⟩⟩]⟩] := by cbv
    rw [hreports]
    exact List.mem_singleton_self _
  have hshort : Addressable "declare variable $x := ( 'ö'" := by decide
  exact ⟨hshort, h, (ranges_renderable hshort).2 _ h⟩

end Parsed

end QueryStubs
