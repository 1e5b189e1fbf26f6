/-!
# Spans: places in a text

A place in a module text is a byte offset into its UTF-8 form, never a count of characters, and a span is a half-open range of
such offsets. Offsets are counted without a bound here; what becomes of them where they are held in 32 bits is said in
`QueryStubs.Grammar.Offset`, and that nothing is lost in a source that is short enough.

Two spans that start at the same place never contain one another strictly: containment here is the relation "starts earlier and
reaches at least as far", which is what decides whether one report hides another.
-/

namespace QueryStubs

/-- A half-open range of byte offsets. -/
structure Span where
  start : Nat
  stop : Nat
  deriving DecidableEq, Repr, Inhabited

namespace Span

/-- The empty range at an offset. -/
def empty (offset : Nat) : Span := ⟨offset, offset⟩

/-- A range that starts earlier than another and reaches at least as far. -/
def StrictlyContains (outer inner : Span) : Prop := outer.start < inner.start ∧ inner.stop ≤ outer.stop

instance (outer inner : Span) : Decidable (outer.StrictlyContains inner) :=
  inferInstanceAs (Decidable (outer.start < inner.start ∧ inner.stop ≤ outer.stop))

/-- The written form of a range: its two offsets with two dots between. -/
def text (s : Span) : String := Nat.repr s.start ++ ".." ++ Nat.repr s.stop

/-- No range contains itself strictly. -/
theorem not_strictlyContains_self (s : Span) : ¬ s.StrictlyContains s := fun h => Nat.lt_irrefl _ h.1

/-- Strict containment is transitive. -/
theorem StrictlyContains.trans {a b c : Span} (hab : a.StrictlyContains b) (hbc : b.StrictlyContains c) :
    a.StrictlyContains c :=
  ⟨Nat.lt_trans hab.1 hbc.1, Nat.le_trans hbc.2 hab.2⟩

end Span

end QueryStubs
