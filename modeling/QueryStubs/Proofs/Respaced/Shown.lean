import QueryStubs.Proofs.Respaced.Source
import QueryStubs.Proofs.Suppression.Hiding

/-!
# What is shown of respaced sources

Whether one report hides another goes by where both start and end, and in respaced sources these places stand in the same order. There is
one exception: the range of the last token reaches to the end of the source only if no trivia follow it. So a report at the end may be
hidden in one source and shown in the other (`hides_eq`). As it can itself hide nothing but reports at the end, all other reports are
shown or hidden together (`Respaced.shown_before_end`), and all reports are if the sources agree on trivia at the end
(`Respaced.shown_alike`).
-/

namespace QueryStubs

open Grammar

/-! ## Lists of reports -/

namespace Diagnostic

section Congruence

variable {R : Diagnostic → Diagnostic → Prop} (hR : ∀ a a' b b', R a a' → R b b' → a.hides b = a'.hides b')

include hR

/-- Corresponding reports are hidden together. -/
theorem any_hides_congr {found found' : List Diagnostic} {b b' : Diagnostic} (hf : List.Forall₂ R found found') (hb : R b b') :
    found.any (·.hides b) = found'.any (·.hides b') := by
  induction hf with
  | nil => rfl
  | cons ha _ ih => rw [List.any_cons, List.any_cons, hR _ _ _ _ ha hb, ih]

/-- So the reports that hide others correspond. -/
theorem hidersFrom_congr {found found' reports reports' : List Diagnostic} (hf : List.Forall₂ R found found')
    (hr : List.Forall₂ R reports reports') : List.Forall₂ R (hidersFrom found reports) (hidersFrom found' reports') := by
  induction hr generalizing found found' with
  | nil => exact hf
  | @cons a a' reports reports' ha _ ih =>
    unfold hidersFrom
    rw [List.foldl_cons, List.foldl_cons, any_hides_congr hR hf ha]
    split
    · exact ih hf
    · exact ih (List.rel_append hf (.cons ha .nil))

/-- And so do those that are shown. -/
theorem shown_congr {reports reports' : List Diagnostic} (hr : List.Forall₂ R reports reports') :
    List.Forall₂ R (shown reports) (shown reports') := by
  have hfound : List.Forall₂ R (hiders reports) (hiders reports') := hidersFrom_congr hR .nil hr
  unfold shown
  generalize hiders reports = found, hiders reports' = found' at hfound
  induction hr with
  | nil => exact .nil
  | cons hb _ ih =>
    rw [List.filter_cons, List.filter_cons, any_hides_congr hR hfound hb]
    split
    · exact .cons hb ih
    · exact ih

end Congruence

section Leaving

variable {keep : Diagnostic → Bool}

/-- A report that nothing left out hides is hidden all the same. -/
theorem any_hides_filter {found : List Diagnostic} {b : Diagnostic} (h : ∀ a, keep a = false → a.hides b = false) :
    (found.filter keep).any (·.hides b) = found.any (·.hides b) := by
  rw [List.any_filter]
  refine congrArg (found.any ·) (funext fun a => ?_)
  cases hk : keep a with
  | false => rw [h a hk, Bool.false_and]
  | true => rfl

/-- Reports that hide none of the others can be left out before it is found which reports hide others. -/
theorem hidersFrom_filter {found reports : List Diagnostic}
    (h : ∀ a, keep a = false → ∀ b ∈ reports, keep b = true → a.hides b = false) :
    (hidersFrom found reports).filter keep = hidersFrom (found.filter keep) (reports.filter keep) := by
  induction reports generalizing found with
  | nil => rfl
  | cons r reports ih =>
    have ih (found) : (hidersFrom found reports).filter keep = hidersFrom (found.filter keep) (reports.filter keep) :=
      ih fun a ha b hb => h a ha b (List.mem_cons_of_mem _ hb)
    unfold hidersFrom at ih ⊢
    rw [List.foldl_cons, List.filter_cons, ih]
    cases hk : keep r with
    | false =>
      refine congrArg (List.foldl _ · _) ?_
      split
      · rfl
      · simp [List.filter_append, hk]
    | true =>
      have hany : (found.filter keep).any (·.hides r) = found.any (·.hides r) :=
        any_hides_filter fun a ha => h a ha r (List.mem_cons_self ..) hk
      refine congrArg (List.foldl _ · _) ?_
      simp only [hany]
      split
      · rfl
      · simp [List.filter_append, hk]

/-- They can be left out before it is found which reports are shown. -/
theorem shown_filter {reports : List Diagnostic} (h : ∀ a, keep a = false → ∀ b ∈ reports, keep b = true → a.hides b = false) :
    (shown reports).filter keep = shown (reports.filter keep) := by
  have hfound : (hiders reports).filter keep = hiders (reports.filter keep) := hidersFrom_filter h
  unfold shown
  rw [← hfound, List.filter_filter, List.filter_filter]
  refine List.filter_congr fun b hb => ?_
  cases hk : keep b with
  | false => simp
  | true => rw [any_hides_filter fun a ha => h a ha b hb hk, Bool.and_comm]

end Leaving

end Diagnostic

/-! ## Places in order -/

section Order

variable {source : String} {i j : Nat} {l k : Lexeme}

/-- Lexemes start in their order. -/
theorem start_lt (hl : (lexemesOf source)[i]? = some l) (hk : (lexemesOf source)[j]? = some k) : l.span.start < k.span.start ↔ i < j := by
  have hlb := lexeme_bounds hl
  have hkb := lexeme_bounds hk
  rcases lexeme_order hl hk with ⟨hij, hle⟩ | ⟨rfl, rfl⟩ | ⟨hji, hle⟩ <;> omega

/-- They end in their order. -/
theorem stop_le (hl : (lexemesOf source)[i]? = some l) (hk : (lexemesOf source)[j]? = some k) : l.span.stop ≤ k.span.stop ↔ i ≤ j := by
  have hlb := lexeme_bounds hl
  have hkb := lexeme_bounds hk
  rcases lexeme_order hl hk with ⟨hij, hle⟩ | ⟨rfl, rfl⟩ | ⟨hji, hle⟩ <;> omega

end Order

section Places

variable {s t : String} {p q p' q' : Nat}

/-- Places where the same tokens start are in the same order. -/
theorem SameStart.order (h : SameStart s t p q) (h' : SameStart s t p' q') : (p = p' ↔ q = q') ∧ (p < p' ↔ q < q') := by
  rcases h with ⟨i, l, k, hl, hk, rfl, rfl⟩ | ⟨rfl, rfl⟩ <;> rcases h' with ⟨j, l', k', hl', hk', rfl, rfl⟩ | ⟨rfl, rfl⟩
  · rw [start_inj hl hl', start_inj hk hk', start_lt hl hl', start_lt hk hk']
    exact ⟨Iff.rfl, Iff.rfl⟩
  · have hlb := lexeme_bounds hl
    have hkb := lexeme_bounds hk
    exact ⟨⟨fun _ => by omega, fun _ => by omega⟩, ⟨fun _ => by omega, fun _ => by omega⟩⟩
  · have hlb := lexeme_bounds hl'
    have hkb := lexeme_bounds hk'
    exact ⟨⟨fun _ => by omega, fun _ => by omega⟩, ⟨fun _ => by omega, fun _ => by omega⟩⟩
  · exact ⟨⟨fun _ => rfl, fun _ => rfl⟩, ⟨fun h => absurd h (Nat.lt_irrefl _), fun h => absurd h (Nat.lt_irrefl _)⟩⟩

/-- Places where the same tokens end are in the same order, unless one is the end of the source and the other is not. -/
theorem SameStop.order (h : SameStop s t p q) (h' : SameStop s t p' q')
    (hend : (p = s.utf8ByteSize ∧ q = t.utf8ByteSize) → (p' = s.utf8ByteSize ↔ q' = t.utf8ByteSize)) : p ≤ p' ↔ q ≤ q' := by
  rcases h with ⟨i, l, k, hl, hk, rfl, rfl⟩ | ⟨rfl, rfl⟩ <;> rcases h' with ⟨j, l', k', hl', hk', rfl, rfl⟩ | ⟨rfl, rfl⟩
  · rw [stop_le hl hl', stop_le hk hk']
  · have hlb := lexeme_bounds hl
    have hkb := lexeme_bounds hk
    exact ⟨fun _ => hkb.2, fun _ => hlb.2⟩
  · have hlb := lexeme_bounds hl'
    have hkb := lexeme_bounds hk'
    have hiff := hend ⟨rfl, rfl⟩
    exact ⟨fun h => by omega, fun h => by omega⟩
  · exact ⟨fun _ => Nat.le_refl _, fun _ => Nat.le_refl _⟩

end Places

/-! ## The last token -/

/-- Behind the last lexeme there are only the trivia at the end. -/
theorem Lexeme.stop_of_split (offset : Nat) (lead ts : List Token) :
    ∀ l, (split offset lead ts).1.getLast? = some l → l.span.stop + Token.sizeOf (split offset lead ts).2 = offset + Token.sizeOf ts := by
  fun_induction split offset lead ts with
  | case1 => simp
  | case2 offset lead t ts ht ih =>
    intro l hl
    rw [ih l hl, Token.sizeOf_cons, Nat.add_assoc]
  | case3 offset lead t ts ht lexemes tail he ih =>
    intro l hl
    rw [he] at ih
    cases lexemes with
    | nil =>
      have htail := tokens_split (offset + t.size) [] ts
      rw [he] at htail
      rw [List.getLast?_singleton] at hl
      obtain rfl := Option.some.inj hl
      have htail : tail = ts := by simpa using htail
      simp only [htail, Token.sizeOf_cons, Nat.add_assoc]
    | cons k ks =>
      rw [List.getLast?_cons_cons] at hl
      rw [ih l hl, Token.sizeOf_cons, Nat.add_assoc]

/-- A lexeme reaches to the end of its source if it is the last and no trivia follow it. -/
theorem stop_eq_size {source : String} {i : Nat} {l : Lexeme} (hl : (lexemesOf source)[i]? = some l) :
    l.span.stop = source.utf8ByteSize ↔ i + 1 = (lexemesOf source).length ∧ triviaAtEnd source = [] := by
  have hi := (List.getElem?_eq_some_iff.mp hl).1
  rcases Nat.lt_or_ge (i + 1) (lexemesOf source).length with hlt | hge
  · have hk := List.getElem?_eq_getElem hlt
    have hkb := lexeme_bounds hk
    have hle := stop_le_start (Nat.lt_succ_self i) hl hk
    exact ⟨fun h => by omega, fun h => by omega⟩
  · have hlast : (lexemesOf source).getLast? = some l := by rw [List.getLast?_eq_getElem?, ← hl]; congr 1; omega
    have hsize := Lexeme.stop_of_split 0 [] (Token.ofSource source) l hlast
    change l.span.stop + Token.sizeOf (triviaAtEnd source) = _ at hsize
    rw [Nat.zero_add, Token.sizeOf_eq (Token.ofSource source), Token.textOf_ofSource] at hsize
    refine ⟨fun h => ⟨by omega, ?_⟩, fun h => by rw [h.2] at hsize; exact hsize⟩
    cases ht : triviaAtEnd source with
    | nil => rfl
    | cons w ws =>
      have hmem : w ∈ Token.ofSource source := by
        have hall := Lexeme.tokens_split 0 [] (Token.ofSource source)
        rw [List.nil_append] at hall
        rw [← hall]
        exact List.mem_append_right _ (show w ∈ triviaAtEnd source from ht ▸ List.mem_cons_self ..)
      have hpos := Token.size_pos_of_scan _ w hmem
      rw [ht, Token.sizeOf_cons] at hsize
      omega

/-! ## What hides what in both sources -/

namespace Respaced

variable {s t : String} {r q a b : Diagnostic}

/-- Corresponding lexemes reach to the end together if the sources agree on trivia at the end. -/
theorem stops_together (h : Respaced s t) (hend : triviaAtEnd s = [] ↔ triviaAtEnd t = []) {i : Nat} {l k : Lexeme}
    (hl : (lexemesOf s)[i]? = some l) (hk : (lexemesOf t)[i]? = some k) :
    l.span.stop = s.utf8ByteSize ↔ k.span.stop = t.utf8ByteSize := by
  have hlen : (lexemesOf s).length = (lexemesOf t).length := by simpa using congrArg List.length h.tokens_eq
  rw [stop_eq_size hl, stop_eq_size hk, hlen, hend]

/-- A report that is not at the end starts before the end. -/
theorem start_lt_size (h : (sideBySide s t).Reported a b) :
    (a.span = .empty s.utf8ByteSize ∧ b.span = .empty t.utf8ByteSize) ∨ a.span.start < s.utf8ByteSize ∧ b.span.start < t.utf8ByteSize := by
  have hstart : ∀ {x y : Span}, (sideBySide s t).same x y → x.start < s.utf8ByteSize ∧ y.start < t.utf8ByteSize := by
    rintro _ _ ⟨i, l, k, hl, hk, rfl, rfl⟩
    have hlb := lexeme_bounds hl
    have hkb := lexeme_bounds hk
    exact ⟨by omega, by omega⟩
  have hspan := h.span
  generalize a.span = x, b.span = y at hspan
  cases hspan with
  | lexeme _ h => exact .inr (hstart h)
  | stretch _ h =>
    obtain ⟨⟨x, y, hxy, hx, hy⟩, -⟩ := h
    exact .inr (hx ▸ hy ▸ hstart hxy)
  | unclosed _ h =>
    have hlt := hstart h
    exact .inr hlt
  | atEnd => exact .inl ⟨rfl, rfl⟩

/-- The ranges of corresponding reports are both the empty range at the end, or neither is. -/
theorem atEnd_together (h : (sideBySide s t).Reported a b) : a.span = .empty s.utf8ByteSize ↔ b.span = .empty t.utf8ByteSize := by
  rcases start_lt_size h with ⟨ha, hb⟩ | ⟨ha, hb⟩
  · exact ⟨fun _ => hb, fun _ => ha⟩
  · exact ⟨fun he => absurd ha (he ▸ Nat.lt_irrefl _), fun he => absurd hb (he ▸ Nat.lt_irrefl _)⟩

/-- A report either reaches to the end in both sources and is structural or at the end, or it ends with a lexeme and is not structural. -/
theorem stop_cases (h : (sideBySide s t).Reported a b) :
    (a.span.stop = s.utf8ByteSize ∧ b.span.stop = t.utf8ByteSize ∧
      (a.kind.isStructural = true ∨ a.span = .empty s.utf8ByteSize)) ∨
    (a.kind.isStructural = false ∧ ∃ (i : Nat) (l k : Lexeme),
      (lexemesOf s)[i]? = some l ∧ (lexemesOf t)[i]? = some k ∧ a.span.stop = l.span.stop ∧ b.span.stop = k.span.stop) := by
  have hspan := h.span
  generalize a.span = x, b.span = y at hspan
  cases hspan with
  | lexeme hk h =>
    obtain ⟨i, l, k, hl, hk', rfl, rfl⟩ := h
    exact .inr ⟨hk, i, l, k, hl, hk', rfl, rfl⟩
  | stretch hk h =>
    obtain ⟨-, _, _, ⟨i, l, k, hl, hk', rfl, rfl⟩, hx, hy⟩ := h
    exact .inr ⟨by rw [hk]; rfl, i, l, k, hl, hk', hx, hy⟩
  | unclosed hk _ => exact .inl ⟨rfl, rfl, .inl hk⟩
  | atEnd => exact .inl ⟨rfl, rfl, .inr rfl⟩

/-- The structural kinds have the highest priorities, so what outranks one of them is one. -/
theorem isStructural_of_outranks {k m : DiagnosticKind} (h : k.Outranks m) (hm : m.isStructural = true) : k.isStructural = true := by
  have hrank : ∀ k : DiagnosticKind, k.isStructural = decide (k.rank < 3) := fun k => by cases k <;> rfl
  rw [hrank, decide_eq_true_eq] at hm ⊢
  exact Nat.lt_trans h hm

/-- Of corresponding reports the one hides the other in both sources or in none, unless the other is at the end and the sources do not
agree on trivia there. -/
theorem hides_eq (h : Respaced s t) {a' b' : Diagnostic} (ha : (sideBySide s t).Reported a a') (hb : (sideBySide s t).Reported b b')
    (hend : b.span = .empty s.utf8ByteSize → (triviaAtEnd s = [] ↔ triviaAtEnd t = [])) : a.hides b = a'.hides b' := by
  obtain ⟨hastart, hastop⟩ := SameRange.of_placed ha.span
  obtain ⟨hbstart, hbstop⟩ := SameRange.of_placed hb.span
  obtain ⟨heq, hlt⟩ := hastart.order hbstart
  unfold Diagnostic.hides
  rw [← ha.kind, ← hb.kind]
  by_cases hs : a.span.start = b.span.start
  · rw [if_pos hs, if_pos (heq.mp hs)]
  · rw [if_neg hs, if_neg fun hs' => hs (heq.mpr hs')]
    by_cases hr : a.kind.Outranks b.kind
    · have hstop : b.span.stop ≤ a.span.stop ↔ b'.span.stop ≤ a'.span.stop := by
        refine hbstop.order hastop fun ⟨hbs, hbt⟩ => ?_
        rcases stop_cases ha with ⟨has, hat, -⟩ | ⟨hk, i, l, k, hl, hk', has, hat⟩
        · exact ⟨fun _ => hat, fun _ => has⟩
        rw [has, hat]
        refine h.stops_together ?_ hl hk'
        rcases stop_cases hb with ⟨-, -, hbk | hbe⟩ | ⟨-, j, m, n, hm, hn, hbm, hbn⟩
        · rw [isStructural_of_outranks hr hbk] at hk
          cases hk
        · exact hend hbe
        · have hm := ((stop_eq_size hm).mp (hbm ▸ hbs)).2
          have hn := ((stop_eq_size hn).mp (hbn ▸ hbt)).2
          exact ⟨fun _ => hn, fun _ => hm⟩
      have hcontains : a.span.StrictlyContains b.span ↔ a'.span.StrictlyContains b'.span := and_congr hlt hstop
      rw [decide_eq_decide.mpr hcontains]
    · rw [decide_eq_false hr, Bool.and_false, Bool.and_false]

/-- A report at the end hides none that starts before the end. -/
theorem atEnd_hides {size : Nat} (ha : a.span = .empty size) (hb : b.span.start < size) : a.hides b = false := by
  have hstart : a.span.start = size := congrArg Span.start ha
  rw [Diagnostic.hides_of_start_ne (by omega), decide_eq_false fun hc => ?_, Bool.false_and]
  exact absurd hc.1 (by omega)

/-- All reports but those at the end are shown or hidden together. -/
theorem shown_before_end (h : Respaced s t) :
    List.Forall₂ (SameReport s t) ((Diagnostic.shown (Parsed.ofSource s).reports).filter fun r => r.span ≠ .empty s.utf8ByteSize)
      ((Diagnostic.shown (Parsed.ofSource t).reports).filter fun r => r.span ≠ .empty t.utf8ByteSize) := by
  have hreports := h.reports
  have hbefore : ∀ r ∈ (Parsed.ofSource s).reports, r.span ≠ .empty s.utf8ByteSize → r.span.start < s.utf8ByteSize := by
    intro r hr hne
    obtain ⟨q, -, hrq⟩ := forall₂_mem hreports r hr
    exact ((start_lt_size hrq).resolve_left fun he => hne he.1).1
  have hbefore' : ∀ q ∈ (Parsed.ofSource t).reports, q.span ≠ .empty t.utf8ByteSize → q.span.start < t.utf8ByteSize := by
    intro q hq hne
    obtain ⟨r, -, hrq⟩ := forall₂_mem hreports.flip q hq
    exact ((start_lt_size hrq).resolve_left fun he => hne he.2).2
  rw [Diagnostic.shown_filter fun a ha b hb hk => atEnd_hides (by simpa using ha) (hbefore b hb (by simpa using hk)),
    Diagnostic.shown_filter fun a ha b hb hk => atEnd_hides (by simpa using ha) (hbefore' b hb (by simpa using hk))]
  have hkept := forall₂_filter (p := fun r => decide (r.span ≠ .empty s.utf8ByteSize))
    (q := fun r => decide (r.span ≠ .empty t.utf8ByteSize)) (fun _ _ hab => by simp [atEnd_together hab]) hreports
  refine (Diagnostic.shown_congr (fun a a' b b' ha hb => h.hides_eq ha.1 hb.1 fun he => ?_) hkept).imp fun _ _ hab => .of_reported hab.1
  exact absurd he (by simpa using hb.2)

/-- If the sources agree on trivia at the end, all reports are. -/
theorem shown_alike (h : Respaced s t) (hend : triviaAtEnd s = [] ↔ triviaAtEnd t = []) :
    List.Forall₂ (SameReport s t) (Diagnostic.shown (Parsed.ofSource s).reports) (Diagnostic.shown (Parsed.ofSource t).reports) :=
  (Diagnostic.shown_congr (fun _ _ _ _ ha hb => h.hides_eq ha hb fun _ => hend) h.reports).imp fun _ _ => .of_reported

end Respaced

end QueryStubs
