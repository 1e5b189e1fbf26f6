import QueryStubs.Proofs.Opaque.Prolog
import QueryStubs.Proofs.Twin.Module

/-!
# Reports are not listened to

What a declaration is made of does not depend on what was reported before it: the same declaration is read once as if nothing had been
reported, and once behind any reports (`Reading.Ordered.unheard`). So where a complete declaration comes next, all of it is read and
nothing else, however broken the source is before it (`declaration_whole`).
-/

namespace QueryStubs

open Grammar

namespace Grammar

/-! ## Without the reports -/

/-- Ranges that are the same and start within the source. -/
def SameInside (limit : Nat) (s t : Span) : Prop := s = t ∧ s.start ≠ limit

theorem SameInside.start_iff {limit : Nat} {s t s' t' : Span} (h : SameInside limit s t) (h' : SameInside limit s' t') :
    s.start = s'.start ↔ t.start = t'.start := by
  rw [h.1, h'.1]

theorem SameInside.start_ne {limit : Nat} {s t : Span} (h : SameInside limit s t) : s.start ≠ limit ∧ t.start ≠ limit := ⟨h.2, h.1 ▸ h.2⟩

/-- Where there are no trivia, they are the same. -/
theorem same_none : ([] : List Token) = [] := rfl

/-- A source is compared with itself to the letter, but what was reported is not compared. -/
def unheard (limit : Nat) : Pairing := .entire False limit limit (SameInside limit) Eq same_none SameInside.start_iff SameInside.start_ne

/-- Trees are compared to the letter. -/
def unheardRows (limit : Nat) : Rows (unheard limit) := .letters _ id

/-- A reading of which nothing was reported. -/
def Reading.hushed (s : Reading) : Reading := { s with reports := [], lastReport := none }

/-- What is in order ends within the source. -/
theorem Ordered.le_limit {limit place : Nat} {ls : List Lexeme} (h : Ordered limit place ls) : place ≤ limit := by
  induction ls generalizing place with
  | nil => exact h
  | cons l ls ih => exact Nat.le_trans h.1 (Nat.le_trans (Nat.le_of_lt h.2.1) (ih h.2.2))

/-- Lexemes in order correspond to themselves. -/
theorem paired_unheard {limit place : Nat} {ls : List Lexeme} (h : Ordered limit place ls) (after : Bool) :
    (unheard limit).Paired after ls ls := by
  induction ls generalizing place after with
  | nil => exact .nil after
  | cons l ls ih =>
    have hinside : l.span.start ≠ limit := Nat.ne_of_lt (Nat.lt_of_lt_of_le h.2.1 h.2.2.le_limit)
    exact .cons ⟨rfl, rfl, rfl, hinside⟩ (fun _ => rfl) (ih h.2.2 _)

/-- A reading is at the same place as if nothing had been reported. -/
theorem Reading.Ordered.unheard {s : Reading} (h : s.Ordered) : (unheardRows s.limit).Twin False s.hushed s where
  ahead := ⟨s.ahead, s.ahead, (List.append_nil _).symm, (List.append_nil _).symm, paired_unheard h false, .inl trivial⟩
  parts := rfl
  modulePrefix := rfl
  alone := .inl trivial
  followed _ := ⟨rfl, rfl, rfl, False.elim, False.elim, False.elim⟩

/-- Lexemes that correspond are the same. -/
theorem eq_of_paired {limit : Nat} {after : Bool} {ls ks : List Lexeme} (h : (unheard limit).Paired after ls ks) : ls = ks := by
  induction h with
  | nil => rfl
  | @cons _ l k _ _ hp _ _ ih =>
    obtain ⟨⟨_, _, _⟩, ⟨_, _, _⟩⟩ := l, k
    obtain ⟨rfl, rfl, rfl, -⟩ := hp
    rw [ih]

/-- Readings at corresponding places have the same parts and the same outlook. -/
theorem eq_of_twin {limit : Nat} {c d : Reading} (h : (unheardRows limit).Twin True c d) : c.parts = d.parts ∧ c.outlook = d.outlook := by
  obtain ⟨run₁, run₂, hc, hd, hp, -⟩ := h.ahead
  have hahead : c.ahead = d.ahead := by
    rw [hc, hd, eq_of_paired hp]
    rfl
  obtain ⟨s, t, ⟨rfl, -⟩, hs, ht⟩ := (h.followed trivial).reached trivial
  refine ⟨h.parts, ?_⟩
  rw [Reading.outlook, Reading.outlook, hahead, hs, ht, show c.tail = d.tail from (h.followed trivial).tail]

/-! ## Whole declarations -/

/-- Where a complete declaration comes next, it is read as a whole, whatever was reported before. -/
theorem declaration_whole {kind : NodeKind} (hk : kind ∈ declKinds) {c : Cursor} (ho : c.Ordered) (ha : c.outlook.Aligned) {ts : List Tree}
    {o : Outlook} (hb : (Form.declared kind (.declBody kind)).Builds c.outlook ts o) :
    (declaration kind (declBody kind) c).2.parts = c.parts ++ ts ∧ (declaration kind (declBody kind) c).2.outlook = o := by
  have hdecl : IsDecl kind := List.mem_append.mp hk
  have hstarts : declAhead c.ahead = some kind := declAhead_of_words (o := c.outlook) hdecl (words_of_declared hb)
  let e : Cursor := ⟨c.toReading.hushed, fullPatience, [], {}⟩
  have hclean : e.Clean := ⟨ho, ha, fun ⟨_, hr, _⟩ => (List.not_mem_nil hr).elim, fun _ hp => nomatch hp⟩
  have hreads : Reads (kind ≠ .functionDecl) (fun o => o.Words (Form.declWords kind)) (declaration kind (declBody kind)) id
      (.declared kind (.declBody kind)) fun _ => True :=
    declaration_reads (declBody_reads hdecl) fun _ => Outlook.words_placed.mpr
  obtain ⟨-, hout, hparts⟩ := hreads.complete e ts o hclean (words_of_declared hb) hb trivial
  -- The reading without reports makes no defect, so the other one goes the same way.
  have hnames : c.outlook.Names (leadingWords kind) := ⟨ha, names_of_declAhead hstarts⟩
  have hpatience : 49 + 17 ≤ fullPatience := by decide
  obtain ⟨hrun, -⟩ := declaration_safe kind (declBody_safe kind) e.ahead.length e ho ⟨hnames, rfl⟩ hpatience (Nat.le_refl _)
  obtain ⟨-, ht⟩ := (recognised_mirrors (T := unheardRows c.limit) trivial kind).agree e c ho.unheard hstarts hrun.frame.1
  obtain ⟨hsame, hsame'⟩ := eq_of_twin ht
  exact ⟨hsame.symm.trans hparts, hsame'.symm.trans hout⟩

end Grammar

end QueryStubs
