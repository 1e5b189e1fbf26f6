import QueryStubs.Proofs.Reader.Safe

/-!
# Forms: what a construct may be made of

A `Form` describes a construct by the lexemes it is made of and by the nodes they are put into. It is read in two ways:
`Form.Takes f ls ls'` says that `f` takes the lexemes `ls` down to `ls'` and leaves nodes and trivia alone, which makes a form a
grammar; `Form.Builds f o ts o'` says which trees are built on the way. Both say the same of the lexemes
(`Form.Builds.takes`, `Form.Takes.builds`).

Whether a lexeme touches the one before it matters in `Form.prefixed` only, and never for the first lexeme of a form. So the trivia
in front of the first lexeme, which a node puts before itself, do not matter to any form.
-/

namespace QueryStubs.Grammar

open QueryStubs

/-- The number of brackets that are open after some lexemes if `depth` were open before them. There is none if a bracket is closed
that was not open, or if a lexeme of a kind in `stops` stands outside all brackets. -/
def depthAfter (opens closes stops : TokenKind → Bool) : Nat → List TokenKind → Option Nat
  | depth, [] => some depth
  | depth, k :: ks =>
    if opens k then depthAfter opens closes stops (depth + 1) ks
    else if closes k then
      match depth with
      | 0 => none
      | depth + 1 => depthAfter opens closes stops depth ks
    else if depth = 0 ∧ stops k = true then none
    else depthAfter opens closes stops depth ks

/-- What a construct may be made of. -/
inductive Form where
  | nothing
  /-- A lexeme of one of some kinds. -/
  | one (p : TokenKind → Bool)
  /-- One of some words, which the tree holds as a keyword. -/
  | keyword (words : List String)
  /-- Two names with a colon between that touches both. -/
  | prefixed
  /-- Lexemes in a row that are not looked into but for their kinds. -/
  | run (p : List TokenKind → Prop)
  | seq (first second : Form)
  | either (first second : Form)
  | many (f : Form)
  | node (kind : NodeKind) (f : Form)
  /-- A node that the trivia in front of it belong to. -/
  | leadNode (kind : NodeKind) (f : Form)
  /-- A form that only counts where the tokens that are left are such and such. -/
  | guard (T : List Token → Prop) (f : Form)
  /-- The trivia that come next. -/
  | trivia

namespace Form

/-- The lexemes that a form takes: those of the first list that are not left in the second. -/
inductive Takes : Form → List Lexeme → List Lexeme → Prop
  | nothing (ls : List Lexeme) : Takes .nothing ls ls
  | one {p : TokenKind → Bool} {l : Lexeme} (ls : List Lexeme) : p l.kind = true → Takes (.one p) (l :: ls) ls
  | keyword {words : List String} {l : Lexeme} (ls : List Lexeme) :
      l.kind = .name → l.token.text ∈ words → Takes (.keyword words) (l :: ls) ls
  | prefixed {first colon last : Lexeme} (ls : List Lexeme) :
      first.kind = .name → colon.kind = .colon → colon.touches = true → last.kind = .name → last.touches = true →
        Takes .prefixed (first :: colon :: last :: ls) ls
  | run {p : List TokenKind → Prop} {run : List Lexeme} (ls : List Lexeme) : p (run.map (·.kind)) → Takes (.run p) (run ++ ls) ls
  | seq {f g : Form} {as bs cs : List Lexeme} : Takes f as bs → Takes g bs cs → Takes (.seq f g) as cs
  | first {f g : Form} {as bs : List Lexeme} : Takes f as bs → Takes (.either f g) as bs
  | second {f g : Form} {as bs : List Lexeme} : Takes g as bs → Takes (.either f g) as bs
  | manyNil {f : Form} (ls : List Lexeme) : Takes (.many f) ls ls
  | manyCons {f : Form} {as bs cs : List Lexeme} : Takes f as bs → Takes (.many f) bs cs → Takes (.many f) as cs
  | node {kind : NodeKind} {f : Form} {as bs : List Lexeme} : Takes f as bs → Takes (.node kind f) as bs
  | leadNode {kind : NodeKind} {f : Form} {as bs : List Lexeme} : Takes f as bs → Takes (.leadNode kind f) as bs
  | guard {T : List Token → Prop} {f : Form} {as bs : List Lexeme} :
      T (as.map (·.token)) → Takes f as bs → Takes (.guard T f) as bs
  | trivia (ls : List Lexeme) : Takes .trivia ls ls

end Form

/-- The place reached behind some lexemes. -/
def reachedBy : Nat → List Lexeme → Nat
  | place, [] => place
  | _, l :: ls => reachedBy l.span.stop ls

/-- The leaves that some tokens make. -/
def leavesFor (ts : List Token) : List Tree := ts.map .leaf

/-- The trees that a form builds between two outlooks. -/
inductive Form.Builds : Form → Outlook → List Tree → Outlook → Prop
  | nothing (o : Outlook) : Builds .nothing o [] o
  | one {p : TokenKind → Bool} {l : Lexeme} (ls : List Lexeme) (tail : List Token) (reached : Nat) : p l.kind = true →
      Builds (.one p) ⟨l :: ls, tail, reached⟩ (leavesFor l.lead ++ [.leaf l.token]) ⟨ls, tail, l.span.stop⟩
  | keyword {words : List String} {l : Lexeme} (ls : List Lexeme) (tail : List Token) (reached : Nat) :
      l.kind = .name → l.token.text ∈ words →
        Builds (.keyword words) ⟨l :: ls, tail, reached⟩ (leavesFor l.lead ++ [.leaf l.token.asKeyword]) ⟨ls, tail, l.span.stop⟩
  | prefixed {first colon last : Lexeme} (ls : List Lexeme) (tail : List Token) (reached : Nat) :
      first.kind = .name → colon.kind = .colon → colon.touches = true → last.kind = .name → last.touches = true →
        Builds .prefixed ⟨first :: colon :: last :: ls, tail, reached⟩
          (leavesFor first.lead ++ [.leaf first.token, .leaf colon.token, .leaf last.token]) ⟨ls, tail, last.span.stop⟩
  | run {p : List TokenKind → Prop} {run : List Lexeme} (ls : List Lexeme) (tail : List Token) (reached : Nat) :
      p (run.map (·.kind)) →
        Builds (.run p) ⟨run ++ ls, tail, reached⟩ (leavesFor (run.flatMap Lexeme.tokens)) ⟨ls, tail, reachedBy reached run⟩
  | seq {f g : Form} {o o' o'' : Outlook} {ts us : List Tree} :
      Builds f o ts o' → Builds g o' us o'' → Builds (.seq f g) o (ts ++ us) o''
  | first {f g : Form} {o o' : Outlook} {ts : List Tree} : Builds f o ts o' → Builds (.either f g) o ts o'
  | second {f g : Form} {o o' : Outlook} {ts : List Tree} : Builds g o ts o' → Builds (.either f g) o ts o'
  | manyNil {f : Form} (o : Outlook) : Builds (.many f) o [] o
  | manyCons {f : Form} {o o' o'' : Outlook} {ts us : List Tree} :
      Builds f o ts o' → Builds (.many f) o' us o'' → Builds (.many f) o (ts ++ us) o''
  | node {kind : NodeKind} {f : Form} {o o' : Outlook} {ts : List Tree} :
      Builds f o.placed ts o' → Builds (.node kind f) o (leavesFor o.trivia ++ [.node kind ts]) o'
  | leadNode {kind : NodeKind} {f : Form} {o o' : Outlook} {ts : List Tree} :
      Builds f o ts o' → Builds (.leadNode kind f) o [.node kind ts] o'
  | guard {T : List Token → Prop} {f : Form} {o o' : Outlook} {ts : List Tree} :
      T (o.ahead.map (·.token)) → Builds f o ts o' → Builds (.guard T f) o ts o'
  | trivia (o : Outlook) : Builds .trivia o (leavesFor o.trivia) o.placed

namespace Form

/-! ## The trivia in front do not matter -/

/-- Two rows of lexemes that differ at most in the trivia in front of the first. -/
inductive SameBehind : List Lexeme → List Lexeme → Prop
  | refl (ls : List Lexeme) : SameBehind ls ls
  | head {l k : Lexeme} (ls : List Lexeme) : l.token = k.token → SameBehind (l :: ls) (k :: ls)

theorem SameBehind.symm {as bs : List Lexeme} (h : SameBehind as bs) : SameBehind bs as := by
  cases h with
  | refl => exact .refl _
  | head ls h => exact .head ls h.symm

theorem SameBehind.trans {as bs cs : List Lexeme} (h : SameBehind as bs) (h' : SameBehind bs cs) : SameBehind as cs := by
  cases h with
  | refl => exact h'
  | head ls h =>
    cases h' with
    | refl => exact .head ls h
    | head _ h' => exact .head ls (h.trans h')

theorem SameBehind.tokens {as bs : List Lexeme} (h : SameBehind as bs) : as.map (·.token) = bs.map (·.token) := by
  cases h with
  | refl => rfl
  | head ls h => rw [List.map_cons, List.map_cons, h]

/-- Placing trivia takes them away from the first lexeme. -/
theorem SameBehind.placed (o : Outlook) : SameBehind o.placed.ahead o.ahead := by
  obtain ⟨_ | ⟨l, ls⟩, tail, reached⟩ := o
  · exact .refl _
  · exact .head ls rfl

/-- What a run of lexemes leaves does not depend on the trivia in front of them. -/
theorem SameBehind.append {run ls as : List Lexeme} (h : SameBehind (run ++ ls) as) :
    ∃ run' ls', as = run' ++ ls' ∧ run'.map (·.kind) = run.map (·.kind) ∧ SameBehind ls ls' := by
  cases run with
  | nil => exact ⟨[], as, rfl, rfl, h⟩
  | cons l run =>
    cases h with
    | refl => exact ⟨l :: run, ls, rfl, rfl, .refl _⟩
    | @head _ k _ h => exact ⟨k :: run, ls, rfl, by simp [Lexeme.kind, h], .refl _⟩

/-- A row of lexemes that differs from one with a first lexeme has a first lexeme with the same token. -/
theorem SameBehind.cons {l : Lexeme} {ls as : List Lexeme} (h : SameBehind (l :: ls) as) :
    ∃ k, as = k :: ls ∧ k.token = l.token := by
  cases h with
  | refl => exact ⟨l, rfl, rfl⟩
  | head _ h => exact ⟨_, rfl, h.symm⟩

/-- A form takes the same lexemes whatever trivia stand in front of the first. -/
theorem Takes.sameBehind {f : Form} {as bs as' : List Lexeme} (h : Takes f as bs) (hs : SameBehind as as') :
    ∃ bs', Takes f as' bs' ∧ SameBehind bs bs' := by
  induction h generalizing as' with
  | nothing ls => exact ⟨as', .nothing as', hs⟩
  | one ls hp =>
    obtain ⟨k, rfl, hk⟩ := hs.cons
    exact ⟨ls, .one ls (by rwa [Lexeme.kind, hk]), .refl ls⟩
  | keyword ls hn hw =>
    obtain ⟨k, rfl, hk⟩ := hs.cons
    exact ⟨ls, .keyword ls (by rwa [Lexeme.kind, hk]) (hk ▸ hw), .refl ls⟩
  | prefixed ls hf hc hct hl hlt =>
    obtain ⟨k, rfl, hk⟩ := hs.cons
    exact ⟨ls, .prefixed ls (by rwa [Lexeme.kind, hk]) hc hct hl hlt, .refl ls⟩
  | run ls hp =>
    obtain ⟨run', ls', rfl, hk, hs⟩ := hs.append
    exact ⟨ls', .run ls' (hk ▸ hp), hs⟩
  | seq _ _ ih ih' =>
    obtain ⟨bs', hf, hb⟩ := ih hs
    obtain ⟨cs', hg, hc⟩ := ih' hb
    exact ⟨cs', .seq hf hg, hc⟩
  | first _ ih =>
    obtain ⟨bs', hf, hb⟩ := ih hs
    exact ⟨bs', .first hf, hb⟩
  | second _ ih =>
    obtain ⟨bs', hg, hb⟩ := ih hs
    exact ⟨bs', .second hg, hb⟩
  | manyNil ls => exact ⟨as', .manyNil as', hs⟩
  | manyCons _ _ ih ih' =>
    obtain ⟨bs', hf, hb⟩ := ih hs
    obtain ⟨cs', hg, hc⟩ := ih' hb
    exact ⟨cs', .manyCons hf hg, hc⟩
  | node _ ih =>
    obtain ⟨bs', hf, hb⟩ := ih hs
    exact ⟨bs', .node hf, hb⟩
  | leadNode _ ih =>
    obtain ⟨bs', hf, hb⟩ := ih hs
    exact ⟨bs', .leadNode hf, hb⟩
  | guard hT _ ih =>
    obtain ⟨bs', hf, hb⟩ := ih hs
    exact ⟨bs', .guard (hs.tokens ▸ hT) hf, hb⟩
  | trivia ls => exact ⟨as', .trivia as', hs⟩

/-- What a form builds trees of is what it takes. -/
theorem Builds.takes {f : Form} {o o' : Outlook} {ts : List Tree} (h : Builds f o ts o') :
    ∃ bs, Takes f o.ahead bs ∧ SameBehind bs o'.ahead := by
  induction h with
  | nothing o => exact ⟨_, .nothing _, .refl _⟩
  | one ls _ _ hp => exact ⟨ls, .one ls hp, .refl ls⟩
  | keyword ls _ _ hn hw => exact ⟨ls, .keyword ls hn hw, .refl ls⟩
  | prefixed ls _ _ hf hc hct hl hlt => exact ⟨ls, .prefixed ls hf hc hct hl hlt, .refl ls⟩
  | run ls _ _ hp => exact ⟨ls, .run ls hp, .refl ls⟩
  | seq _ _ ih ih' =>
    obtain ⟨bs, hf, hb⟩ := ih
    obtain ⟨cs, hg, hc⟩ := ih'
    obtain ⟨cs', hg', hc'⟩ := hg.sameBehind hb.symm
    exact ⟨cs', .seq hf hg', hc'.symm.trans hc⟩
  | first _ ih =>
    obtain ⟨bs, hf, hb⟩ := ih
    exact ⟨bs, .first hf, hb⟩
  | second _ ih =>
    obtain ⟨bs, hg, hb⟩ := ih
    exact ⟨bs, .second hg, hb⟩
  | manyNil o => exact ⟨_, .manyNil _, .refl _⟩
  | manyCons _ _ ih ih' =>
    obtain ⟨bs, hf, hb⟩ := ih
    obtain ⟨cs, hg, hc⟩ := ih'
    obtain ⟨cs', hg', hc'⟩ := hg.sameBehind hb.symm
    exact ⟨cs', .manyCons hf hg', hc'.symm.trans hc⟩
  | @node kind f o o' ts _ ih =>
    obtain ⟨bs, hf, hb⟩ := ih
    obtain ⟨bs', hf', hb'⟩ := hf.sameBehind (.placed o)
    exact ⟨bs', .node hf', hb'.symm.trans hb⟩
  | leadNode _ ih =>
    obtain ⟨bs, hf, hb⟩ := ih
    exact ⟨bs, .leadNode hf, hb⟩
  | guard hT _ ih =>
    obtain ⟨bs, hf, hb⟩ := ih
    exact ⟨bs, .guard hT hf, hb⟩
  | trivia o => exact ⟨_, .trivia _, (SameBehind.placed o).symm⟩

/-- What a form takes it builds trees of. -/
theorem Takes.builds {f : Form} {as bs : List Lexeme} (h : Takes f as bs) {o : Outlook} (ho : SameBehind as o.ahead) :
    ∃ ts o', Builds f o ts o' ∧ SameBehind bs o'.ahead := by
  induction h generalizing o with
  | nothing ls => exact ⟨[], o, .nothing o, ho⟩
  | one ls hp =>
    obtain ⟨ahead, tail, reached⟩ := o
    obtain ⟨k, rfl, hk⟩ := ho.cons
    exact ⟨_, _, .one ls tail reached (by rwa [Lexeme.kind, hk]), .refl ls⟩
  | keyword ls hn hw =>
    obtain ⟨ahead, tail, reached⟩ := o
    obtain ⟨k, rfl, hk⟩ := ho.cons
    exact ⟨_, _, .keyword ls tail reached (by rwa [Lexeme.kind, hk]) (hk ▸ hw), .refl ls⟩
  | prefixed ls hf hc hct hl hlt =>
    obtain ⟨ahead, tail, reached⟩ := o
    obtain ⟨k, rfl, hk⟩ := ho.cons
    exact ⟨_, _, .prefixed ls tail reached (by rwa [Lexeme.kind, hk]) hc hct hl hlt, .refl ls⟩
  | run ls hp =>
    obtain ⟨ahead, tail, reached⟩ := o
    obtain ⟨run', ls', rfl, hk, hs⟩ := ho.append
    exact ⟨_, _, .run ls' tail reached (hk ▸ hp), hs⟩
  | seq _ _ ih ih' =>
    obtain ⟨ts, o', hf, hb⟩ := ih ho
    obtain ⟨us, o'', hg, hc⟩ := ih' hb
    exact ⟨_, o'', .seq hf hg, hc⟩
  | first _ ih =>
    obtain ⟨ts, o', hf, hb⟩ := ih ho
    exact ⟨ts, o', .first hf, hb⟩
  | second _ ih =>
    obtain ⟨ts, o', hg, hb⟩ := ih ho
    exact ⟨ts, o', .second hg, hb⟩
  | manyNil ls => exact ⟨[], o, .manyNil o, ho⟩
  | manyCons _ _ ih ih' =>
    obtain ⟨ts, o', hf, hb⟩ := ih ho
    obtain ⟨us, o'', hg, hc⟩ := ih' hb
    exact ⟨_, o'', .manyCons hf hg, hc⟩
  | node _ ih =>
    obtain ⟨ts, o', hf, hb⟩ := ih (ho.trans (SameBehind.placed o).symm)
    exact ⟨_, o', .node hf, hb⟩
  | leadNode _ ih =>
    obtain ⟨ts, o', hf, hb⟩ := ih ho
    exact ⟨_, o', .leadNode hf, hb⟩
  | guard hT _ ih =>
    obtain ⟨ts, o', hf, hb⟩ := ih ho
    exact ⟨ts, o', .guard (ho.tokens ▸ hT) hf, hb⟩
  | trivia ls => exact ⟨_, o.placed, .trivia o, ho.trans (SameBehind.placed o).symm⟩

end Form

end QueryStubs.Grammar
