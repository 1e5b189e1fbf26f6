import Mathlib.Data.List.Forall2
import Mathlib.Data.Option.Basic
import QueryStubs.Proofs.Syntax.Form

/-!
# Two readings side by side

A rule goes by few things: the tokens ahead, whether some of them touch, and whether a report was made at the place where it would make
another. So two readings that agree on these go the same way. `Pairing` names what the readings are compared by, and `Rows.Twin` says
that they have come to corresponding places.

There are three uses. Two sources with the same tokens are compared from their first lexeme to the end (`whole`), with their trees up to
trivia and their reports up to places (`reports`). One source is compared so with itself, but with something else reported before. And one
declaration is compared with the same declaration somewhere else (`segment`): then nothing is known of what is behind it, so the rules must
not look there, and reports are not compared either. How trees are compared is left to `Rows`.
-/

namespace QueryStubs.Grammar

open QueryStubs

/-- The tokens of a declaration that does not reach into what is behind it: its semicolon is the last of them, no word in it starts another
declaration, and each bracket opened in it is closed in it. -/
structure Segment (ts : List Token) : Prop where
  last : ∃ inner semicolon, ts = inner ++ [semicolon] ∧ semicolon.kind = .semicolon ∧ ∀ t ∈ inner, t.kind ≠ .semicolon
  words : ∀ t ∈ ts.tail, t.isWord "declare" = false ∧ t.isWord "import" = false
  parens : ∀ run, run <:+ ts → run.countP (·.kind = .parenOpen) ≤ run.countP (·.kind = .parenClose)
  braces : ∀ run, run <:+ ts → run.countP (·.kind = .braceOpen) ≤ run.countP (·.kind = .braceClose)
  brackets : ∀ run, run <:+ ts → run.countP (·.kind = .bracketOpen) ≤ run.countP (·.kind = .bracketClose)

/-- What two readings are compared by. -/
structure Pairing where
  /-- Whether the readings are compared to the end. -/
  whole : Prop
  /-- Whether their reports are compared if they are. -/
  reports : Prop
  /-- The tokens of the declaration that is compared, if they are not. -/
  segment : List Token
  /-- The lexemes behind those that are compared. -/
  rest₁ : List Lexeme
  rest₂ : List Lexeme
  /-- The lengths of the sources. -/
  limit₁ : Nat
  limit₂ : Nat
  /-- The ranges of corresponding lexemes. -/
  same : Span → Span → Prop
  /-- Trivia that may stand in front of corresponding lexemes. -/
  leads : List Token → List Token → Prop
  leads_nil : leads [] []
  rest_whole : whole → rest₁ = [] ∧ rest₂ = []
  segment_part : ¬ whole → Segment segment
  same_inj : whole → ∀ {s t s' t' : Span}, same s t → same s' t' → (s.start = s'.start ↔ t.start = t'.start)
  same_inside : whole → ∀ {s t : Span}, same s t → s.start ≠ limit₁ ∧ t.start ≠ limit₂

/-- Readings that are compared to the end, by the ranges of corresponding lexemes and by the trivia in front of them. -/
def Pairing.entire (reports : Prop) (limit₁ limit₂ : Nat) (same : Span → Span → Prop) (leads : List Token → List Token → Prop)
    (leads_nil : leads [] []) (same_inj : ∀ {s t s' t' : Span}, same s t → same s' t' → (s.start = s'.start ↔ t.start = t'.start))
    (same_inside : ∀ {s t : Span}, same s t → s.start ≠ limit₁ ∧ t.start ≠ limit₂) : Pairing where
  whole := True
  reports := reports
  segment := []
  rest₁ := []
  rest₂ := []
  limit₁ := limit₁
  limit₂ := limit₂
  same := same
  leads := leads
  leads_nil := leads_nil
  rest_whole _ := ⟨rfl, rfl⟩
  segment_part h := absurd trivial h
  same_inj _ := same_inj
  same_inside _ := same_inside

/-- A relation between rows of trees that is kept when rows are joined. -/
structure Likeness (K : Pairing) where
  rel : List Tree → List Tree → Prop
  nil : rel [] []
  append : ∀ {ts us ts' us' : List Tree}, rel ts us → rel ts' us' → rel (ts ++ ts') (us ++ us')
  leaf : ∀ t : Token, rel [.leaf t] [.leaf t]
  lead : ∀ {ws vs : List Token}, K.leads ws vs → rel (leavesFor ws) (leavesFor vs)

/-- How the trees of two readings are compared. -/
structure Rows (K : Pairing) where
  /-- Rows of trees that correspond. -/
  rows : Likeness K
  /-- Rows of trees that correspond inside a node for what could not be used. -/
  spoiled : Likeness K
  node : ∀ {kind : NodeKind} {ts us : List Tree}, kind ≠ .error → kind ≠ .occurrence → rows.rel ts us →
    rows.rel [.node kind ts] [.node kind us]
  mark : ∀ t : Token, rows.rel [.node .occurrence [.leaf t]] [.node .occurrence [.leaf t]]
  error : ∀ {ts us : List Tree}, spoiled.rel ts us → rows.rel [.node .error ts] [.node .error us]
  spoiled_node : ∀ {kind : NodeKind} {ts us : List Tree}, spoiled.rel ts us → spoiled.rel [.node kind ts] [.node kind us]
  /-- An empty node that only the first reading makes, because only it has trivia left. -/
  spoiled_left : K.whole → ∀ {w : Token} {ws : List Token}, K.leads (w :: ws) [] →
    spoiled.rel (leavesFor (w :: ws) ++ [.node .error []]) []
  /-- Such a node that only the second reading makes. -/
  spoiled_right : K.whole → ∀ {v : Token} {vs : List Token}, K.leads [] (v :: vs) →
    spoiled.rel [] (leavesFor (v :: vs) ++ [.node .error []])

/-- Trees are compared to the letter. This can be done where trivia are. -/
def Rows.letters (K : Pairing) (h : ∀ {ws vs : List Token}, K.leads ws vs → ws = vs) : Rows K :=
  let same : Likeness K :=
    { rel := Eq
      nil := rfl
      append := fun h h' => by rw [h, h']
      leaf := fun _ => rfl
      lead := fun hl => congrArg leavesFor (h hl) }
  { rows := same
    spoiled := same
    node := fun _ _ h => congrArg (fun us => [Tree.node _ us]) h
    mark := fun _ => rfl
    error := fun h => congrArg (fun us => [Tree.node _ us]) h
    spoiled_node := fun h => congrArg (fun us => [Tree.node _ us]) h
    spoiled_left := fun _ _ _ hl => nomatch h hl
    spoiled_right := fun _ _ _ hl => nomatch h hl }

/-- What is compared inside a node for what could not be used. -/
def Rows.spoil {K : Pairing} (T : Rows K) : Rows K :=
  { T with
    rows := T.spoiled
    node := fun _ _ h => T.spoiled_node h
    mark := fun t => T.spoiled_node (T.spoiled.leaf t)
    error := T.spoiled_node }

namespace Pairing

variable {K : Pairing}

/-! ## Lexemes -/

/-- Lexemes that correspond. -/
structure Pair (K : Pairing) (l k : Lexeme) : Prop where
  token : l.token = k.token
  lead : K.leads l.lead k.lead
  span : K.same l.span k.span

/-- Rows of lexemes that correspond. Whether a lexeme touches the one before it matters for colons, for what follows a colon, which the
first lexeme does if the flag says so, and for the text of literals. -/
inductive Paired (K : Pairing) : Bool → List Lexeme → List Lexeme → Prop
  | nil (after : Bool) : Paired K after [] []
  | cons {after : Bool} {l k : Lexeme} {ls ks : List Lexeme} : K.Pair l k →
      (after = true ∨ l.kind = .colon ∨ l.kind = .literalText → l.touches = k.touches) →
        Paired K (l.kind = .colon) ls ks → Paired K after (l :: ls) (k :: ks)

/-- What is known of corresponding lexemes in front of which nothing is known is known of all. -/
theorem Paired.weaken {after : Bool} {ls ks : List Lexeme} (h : K.Paired after ls ks) : K.Paired false ls ks := by
  cases h with
  | nil => exact .nil false
  | cons hp ht hr => exact .cons hp (fun h => ht (h.elim nofun .inr)) hr

/-- Corresponding rows are equally long. -/
theorem Paired.length {after : Bool} {ls ks : List Lexeme} (h : K.Paired after ls ks) : ls.length = ks.length := by
  induction h with
  | nil => rfl
  | cons _ _ _ ih => rw [List.length_cons, List.length_cons, ih]

/-- Lexemes in the same place of corresponding rows correspond. -/
structure Seen (K : Pairing) (before : Option Lexeme) (l k : Lexeme) : Prop extends K.Pair l k where
  touches : before.any (fun m => m.kind = .colon) = true ∨ l.kind = .colon ∨ l.kind = .literalText → l.touches = k.touches

/-- The lexeme before the one at a place. -/
def before (ls : List Lexeme) : Nat → Option Lexeme
  | 0 => none
  | i + 1 => ls[i]?

theorem Paired.get {after : Bool} {ls ks : List Lexeme} (h : K.Paired after ls ks) (i : Nat) :
    Option.Rel (K.Seen (before ls i)) ls[i]? ks[i]? := by
  induction h generalizing i with
  | nil => exact .none
  | @cons after l k ls ks hp ht hr ih =>
    match i with
    | 0 => exact .some ⟨hp, fun h => ht (.inr (h.resolve_left nofun))⟩
    | 1 =>
      cases hr with
      | nil => exact .none
      | cons hp' ht' _ => exact .some ⟨hp', fun h => ht' (by simpa [before] using h)⟩
    | i + 2 => exact ih (i + 1)

/-! ## Ranges and reports -/

/-- Ranges of what comes next: of corresponding lexemes, or both empty at the end. -/
def Next (K : Pairing) (s t : Span) : Prop := K.same s t ∨ s = .empty K.limit₁ ∧ t = .empty K.limit₂

/-- Ranges that start and end with corresponding lexemes. -/
def Stretch (K : Pairing) (s t : Span) : Prop :=
  (∃ a b, K.same a b ∧ s.start = a.start ∧ t.start = b.start) ∧ ∃ a b, K.same a b ∧ s.stop = a.stop ∧ t.stop = b.stop

/-- Ranges of reports of a kind that correspond. -/
inductive Placed (K : Pairing) (kind : DiagnosticKind) : Span → Span → Prop
  | lexeme {s t : Span} : kind.isStructural = false → K.same s t → Placed K kind s t
  /-- A report at a whole declaration. -/
  | stretch {s t : Span} : kind = .misplacedDeclaration → K.Stretch s t → Placed K kind s t
  /-- A report of a bracket that is never closed. -/
  | unclosed {s t : Span} : kind.isStructural = true → K.same s t → Placed K kind ⟨s.start, K.limit₁⟩ ⟨t.start, K.limit₂⟩
  | atEnd : Placed K kind (.empty K.limit₁) (.empty K.limit₂)

/-- Reports that correspond: they say the same of corresponding places. -/
structure Reported (K : Pairing) (r s : Diagnostic) : Prop where
  kind : r.kind = s.kind
  detail : r.detail = s.detail
  span : K.Placed r.kind r.span s.span
  related : List.Forall₂ (fun a b : Related => a.message = b.message ∧ K.Stretch a.span b.span) r.related s.related

/-- The places of corresponding reports. -/
def Spot (K : Pairing) (p q : Nat) : Prop := ∃ s t, K.Next s t ∧ s.start = p ∧ t.start = q

/-- Two places are the same just if the corresponding ones are. -/
theorem Spot.inj (hw : K.whole) {p q p' q' : Nat} (h : K.Spot p q) (h' : K.Spot p' q') : p = p' ↔ q = q' := by
  obtain ⟨s, t, h, rfl, rfl⟩ := h
  obtain ⟨s', t', h', rfl, rfl⟩ := h'
  rcases h with h | ⟨rfl, rfl⟩ <;> rcases h' with h' | ⟨rfl, rfl⟩
  · exact K.same_inj hw h h'
  · obtain ⟨h1, h2⟩ := K.same_inside hw h
    exact ⟨fun he => absurd he h1, fun he => absurd he h2⟩
  · obtain ⟨h1, h2⟩ := K.same_inside hw h'
    exact ⟨fun he => absurd he.symm h1, fun he => absurd he.symm h2⟩
  · exact ⟨fun _ => rfl, fun _ => rfl⟩

/-! ## Readings -/

/-- What is left of the declaration that is compared: its semicolon at least, and less than all of it once something was taken. -/
def Left (K : Pairing) (taken : Prop) (run : List Lexeme) : Prop :=
  K.whole ∨ run.map (·.token) <:+ K.segment ∧ run ≠ [] ∧ (taken → run.map (·.token) ≠ K.segment)

/-- What corresponds besides if the readings are compared to the end. -/
structure Followed (K : Pairing) (taken : Prop) (c d : Reading) : Prop where
  tail : K.leads c.tail d.tail
  limit₁ : c.limit = K.limit₁
  limit₂ : d.limit = K.limit₂
  reports : K.reports → List.Forall₂ K.Reported c.reports d.reports
  lastReport : K.reports → Option.Rel K.Spot c.lastReport d.lastReport
  reached : taken → ∃ s t, K.same s t ∧ c.reached = s.stop ∧ d.reached = t.stop

/-- What is followed besides has nothing to do with the trees. -/
theorem Followed.parts {taken : Prop} {c d : Reading} {ts us : List Tree} (h : K.Followed taken c d) :
    K.Followed taken { c with parts := ts } { d with parts := us } :=
  ⟨h.tail, h.limit₁, h.limit₂, h.reports, h.lastReport, h.reached⟩

end Pairing

/-- Readings that have come to corresponding places. -/
structure Rows.Twin {K : Pairing} (T : Rows K) (taken : Prop) (c d : Reading) : Prop where
  ahead : ∃ run₁ run₂, c.ahead = run₁ ++ K.rest₁ ∧ d.ahead = run₂ ++ K.rest₂ ∧ K.Paired false run₁ run₂ ∧ K.Left taken run₁
  parts : T.rows.rel c.parts d.parts
  modulePrefix : c.modulePrefix = d.modulePrefix
  /-- Where one declaration is compared, no module declaration comes before it, and no trivia end the first source. -/
  alone : K.whole ∨ c.modulePrefix = none ∧ c.tail = []
  followed : K.whole → K.Followed taken c d

/-- Corresponding places are so whatever is known to have been taken. -/
theorem Rows.Twin.weaken {K : Pairing} {T : Rows K} {p q : Prop} {c d : Reading} (h : T.Twin p c d) (hq : q → p) : T.Twin q c d := by
  obtain ⟨⟨run₁, run₂, hc, hd, hp, hl⟩, hparts, hprefix, halone, hf⟩ := h
  refine ⟨⟨run₁, run₂, hc, hd, hp, ?_⟩, hparts, hprefix, halone, fun hw => ?_⟩
  · exact hl.imp id fun ⟨h1, h2, h3⟩ => ⟨h1, h2, fun hq' => h3 (hq hq')⟩
  · obtain ⟨h1, h2, h3, h4, h5, h6⟩ := hf hw
    exact ⟨h1, h2, h3, h4, h5, fun hq' => h6 (hq hq')⟩

end QueryStubs.Grammar
