import Mathlib.Data.List.TakeWhile
import QueryStubs.Proofs.Parsed
import QueryStubs.Proofs.Scan.Marks
import QueryStubs.Proofs.Scan.Tiling
import QueryStubs.Proofs.Syntax.Scans

/-!
# Parentheses of a text and parentheses among tokens

`Text.parenDepth` counts the parentheses of a text that are open at its end, those in string literals left out. It goes from one character to
the next and knows nothing of tokens. The grammar counts tokens instead. On the text of tokens that were cut from a source the two agree
(`Token.passes_charsOf`): outside literals no token but the parentheses has a parenthesis or a quotation mark in it (`Token.Quiet`), because
text with a quotation mark that starts no literal reaches to the end of the source, and in a literal its own mark stands in pairs.
-/

namespace QueryStubs

namespace Text

/-- What is known of a text that was read up to a place: the mark of the string literal that the place is in, if it is in one, and how many
parentheses are open. -/
structure ParenState where
  literal : Option Char
  depth : Int
  deriving DecidableEq, Repr

/-- What is known one character later. The first mark of a doubled one ends the literal and the second starts it again. -/
def ParenState.after : ParenState → Char → ParenState
  | ⟨some q, depth⟩, c => if c = q then ⟨none, depth⟩ else ⟨some q, depth⟩
  | ⟨none, depth⟩, c =>
    if c = '\x22' ∨ c = '\x27' then ⟨some c, depth⟩
    else if c = '(' then ⟨none, depth + 1⟩
    else if c = ')' then ⟨none, depth - 1⟩
    else ⟨none, depth⟩

/-- How many parentheses are open at the end of a text, those in string literals left out. -/
def parenDepth (cs : List Char) : Int := (cs.foldl ParenState.after ⟨none, 0⟩).depth

/-- A character that is neither a parenthesis nor a quotation mark. -/
def Calm (c : Char) : Prop := c ≠ '(' ∧ c ≠ ')' ∧ c ≠ '\x22' ∧ c ≠ '\x27'

instance (c : Char) : Decidable (Calm c) := inferInstanceAs (Decidable (_ ∧ _))

/-- Such characters change nothing outside literals. -/
theorem after_calm {c : Char} (h : Calm c) (depth : Int) : ParenState.after ⟨none, depth⟩ c = ⟨none, depth⟩ := by
  obtain ⟨hopen, hclose, hdouble, hsingle⟩ := h
  simp [ParenState.after, hopen, hclose, hdouble, hsingle]

theorem foldl_calm {cs : List Char} (h : ∀ c ∈ cs, Calm c) (depth : Int) : cs.foldl ParenState.after ⟨none, depth⟩ = ⟨none, depth⟩ := by
  induction cs with
  | nil => rfl
  | cons c cs ih =>
    obtain ⟨hc, hcs⟩ := List.forall_mem_cons.mp h
    rw [List.foldl_cons, after_calm hc, ih hcs]

/-- A quotation mark outside literals starts one, and ends it. -/
theorem after_quote (quote : Quote) (depth : Int) :
    ParenState.after ⟨none, depth⟩ quote.char = ⟨some quote.char, depth⟩ ∧
      ParenState.after ⟨some quote.char, depth⟩ quote.char = ⟨none, depth⟩ := by
  cases quote <;> exact ⟨rfl, rfl⟩

/-- A text leads from one state to another, and everywhere on the way there is a parenthesis open. -/
inductive Passes : ParenState → List Char → ParenState → Prop
  | nil {s : ParenState} : 0 < s.depth → Passes s [] s
  | cons {s t : ParenState} {c : Char} {cs : List Char} : 0 < s.depth → Passes (s.after c) cs t → Passes s (c :: cs) t

namespace Passes

variable {s t u : ParenState} {cs ds : List Char} {depth : Int}

theorem foldl_eq (h : Passes s cs t) : cs.foldl ParenState.after s = t := by
  induction h with
  | nil => rfl
  | cons _ _ ih => exact ih

theorem append (h : Passes s cs t) (h' : Passes t ds u) : Passes s (cs ++ ds) u := by
  induction h with
  | nil => exact h'
  | cons hs _ ih => exact .cons hs (ih h')

/-- A part of the text that was read leaves a parenthesis open. -/
theorem depth_pos (h : Passes s cs t) (hd : ds <+: cs) : 0 < (ds.foldl ParenState.after s).depth := by
  induction h generalizing ds with
  | nil hs =>
    rw [List.prefix_nil.mp hd]
    exact hs
  | cons hs _ ih =>
    rcases List.prefix_cons_iff.mp hd with rfl | ⟨es, rfl, hes⟩
    · exact hs
    · exact ih hes

theorem one {c : Char} (hs : 0 < s.depth) (ht : 0 < (s.after c).depth) : Passes s [c] (s.after c) := .cons hs (.nil ht)

theorem calm (h : ∀ c ∈ cs, Calm c) (hd : 0 < depth) : Passes ⟨none, depth⟩ cs ⟨none, depth⟩ := by
  induction cs with
  | nil => exact .nil hd
  | cons c cs ih =>
    obtain ⟨hc, hcs⟩ := List.forall_mem_cons.mp h
    refine .cons hd ?_
    rw [after_calm hc]
    exact ih hcs

end Passes

end Text

/-! ## Literals -/

namespace EvenRuns

variable {q c : Char} {cs : List Char}

/-- Behind another character the runs are even too. -/
theorem of_cons (hc : c ≠ q) (h : EvenRuns q (c :: cs)) : EvenRuns q cs := by
  intro before n after he hbefore hafter
  refine h (c :: before) n after (by rw [he]; simp) (fun hl => ?_) hafter
  cases before with
  | nil => exact hc (Option.some.inj hl)
  | cons b before =>
    rw [List.getLast?_cons_cons] at hl
    exact hbefore hl

/-- Such a character comes with a second one, and behind the two the runs are even too. -/
theorem of_mark (h : EvenRuns q (q :: cs)) : ∃ ds, cs = q :: ds ∧ EvenRuns q ds := by
  have hhead : cs.head? = some q := by
    by_contra hne
    exact absurd (h [] 1 cs rfl nofun hne) (by decide)
  cases cs with
  | nil => cases hhead
  | cons d ds =>
    obtain rfl : d = q := Option.some.inj hhead
    refine ⟨ds, rfl, fun before n after he hbefore hafter => ?_⟩
    cases before with
    | nil =>
      have heven := h [] (n + 2) after (by rw [he]; simp [List.replicate_succ]) nofun hafter
      omega
    | cons b before => exact h (d :: d :: b :: before) n after (by rw [he]; simp) hbefore hafter

end EvenRuns

namespace Text

/-- In the body of a literal the literal goes on. -/
theorem Passes.body {quote : Quote} {depth : Int} (hd : 0 < depth) :
    ∀ {cs : List Char}, EvenRuns quote.char cs → Passes ⟨some quote.char, depth⟩ cs ⟨some quote.char, depth⟩
  | [], _ => .nil hd
  | c :: cs, h => by
    by_cases hc : c = quote.char
    · -- The mark is doubled: the literal ends and starts again.
      obtain ⟨ds, rfl, hds⟩ := (hc ▸ h).of_mark
      obtain ⟨hstart, hend⟩ := after_quote quote depth
      rw [hc]
      refine .cons hd ?_
      rw [hend]
      refine .cons hd ?_
      rw [hstart]
      exact body hd hds
    · refine .cons hd ?_
      rw [ParenState.after, if_neg hc]
      exact body hd (h.of_cons hc)

/-- So a whole literal changes nothing. -/
theorem Passes.literal {quote : Quote} {depth : Int} (hd : 0 < depth) {cs : List Char} (h : EvenRuns quote.char cs) :
    Passes ⟨none, depth⟩ (quote.char :: (cs ++ [quote.char])) ⟨none, depth⟩ := by
  obtain ⟨hstart, hend⟩ := after_quote quote depth
  refine .cons hd ?_
  rw [hstart]
  refine (body hd h).append (.cons hd ?_)
  rw [hend]
  exact .nil hd

end Text

/-! ## Tokens of a source -/

namespace Token

open Text (Calm Passes)

/-- Outside literals a token that is meant is a parenthesis or has only calm characters in it. -/
def Quiet (t : Token) : Prop :=
  t.kind.isPlain = true → t.isTrivia = false → t.kind ≠ .parenOpen → t.kind ≠ .parenClose → ∀ c ∈ t.text.toList, Calm c

/-- The characters that are in names and numbers are calm. -/
theorem calm_of_nameChar {c : Char} (h : isNameStart c = true ∨ isNameChar c = true ∨ c.isDigit = true) : Calm c := by
  refine ⟨?_, ?_, ?_, ?_⟩ <;>
  · rintro rfl
    exact absurd h (by decide)

end Token

/-- So are those of a name. -/
theorem IsNCName.calm {s : String} (h : IsNCName s) : ∀ c ∈ s.toList, Text.Calm c := by
  obtain ⟨c, cs, hs, hc, hall⟩ := h.toList
  rw [hs]
  exact List.forall_mem_cons.mpr ⟨Token.calm_of_nameChar (.inl hc), fun d hd => Token.calm_of_nameChar (.inr (.inl (hall d hd)))⟩

/-- So are the marks by themselves, but for the parenthesis. -/
theorem calm_of_markKind {c : Char} {kind : TokenKind} (h : markKind c = some kind) (hk : kind ≠ .parenClose) : Text.Calm c := by
  unfold markKind at h
  split at h <;> cases h <;> first | exact absurd rfl hk | decide

namespace Piece

open Text (Calm)

/-- The places of a number are digits behind a point. -/
theorem calm_fraction (cs : List Char) : ∀ c ∈ (fraction cs).1, Calm c := by
  unfold fraction
  split
  · split
    · next d cs hd =>
      refine List.forall_mem_cons.mpr ⟨by decide, List.forall_mem_cons.mpr ⟨Token.calm_of_nameChar (.inr (.inr hd)), fun c hc => ?_⟩⟩
      exact Token.calm_of_nameChar (.inr (.inr (List.mem_takeWhile_imp hc)))
    · exact List.forall_mem_nil _
  · exact List.forall_mem_nil _

/-- The pieces of a text that are a single token are quiet. -/
theorem quiet_of_cut {c : Char} {cs text : List Char} {kind : TokenKind} (h : (cut c cs).1 = .plain kind text) :
    Token.Quiet ⟨kind, String.ofList text⟩ := by
  intro _ hmeant hopen hclose
  have htrivia : kind.isTrivia = false := hmeant
  clear hmeant
  simp only [String.toList_ofList]
  unfold cut at h
  split at h
  · next hstart =>
    cases h
    refine List.forall_mem_cons.mpr ⟨Token.calm_of_nameChar (.inl hstart), fun d hd => ?_⟩
    exact Token.calm_of_nameChar (.inr (.inl (List.mem_takeWhile_imp hd)))
  split at h
  · next hdigit =>
    cases h
    refine List.forall_mem_cons.mpr ⟨Token.calm_of_nameChar (.inr (.inr hdigit)), List.forall_mem_append.mpr ⟨fun d hd => ?_, ?_⟩⟩
    · exact Token.calm_of_nameChar (.inr (.inr (List.mem_takeWhile_imp hd)))
    · exact calm_fraction _
  repeat' split at h
  all_goals cases h
  all_goals first
    | exact absurd htrivia (by decide)
    | exact (hopen rfl).elim
    | exact List.forall_mem_cons.mpr ⟨by decide, List.forall_mem_singleton.mpr (by decide)⟩
    | exact List.forall_mem_singleton.mpr (by decide)
    | exact List.forall_mem_singleton.mpr (calm_of_markKind ‹_› hclose)

/-- Characters that start no token are calm, or they reach to the end of the text. -/
theorem calm_of_stray {c : Char} {cs text : List Char} (h : (cut c cs).1 = .stray text) (hrest : (cut c cs).2 ≠ []) :
    ∀ d ∈ text, Calm d := by
  generalize he : cut c cs = piece at h hrest
  unfold cut at he
  repeat' split at he
  all_goals subst he
  all_goals cases h
  all_goals try exact (hrest rfl).elim
  -- A character is left that fits none of the cases before and is no mark.
  have hclose : c ≠ ')' := by
    rintro rfl
    exact absurd ‹markKind ')' = none› (by decide)
  exact List.forall_mem_singleton.mpr ⟨‹c = '(' → False›, hclose, ‹c = '\x22' → False›, ‹c = '\x27' → False›⟩

end Piece

namespace Token

open Text (Calm Passes ParenState)

/-- What belongs to a literal is not spoken of. -/
theorem quiet_of_literal {kind : TokenKind} (h : kind.isPlain = false) (text : String) : Quiet ⟨kind, text⟩ := by
  intro hplain
  rw [h] at hplain
  cases hplain

/-- The tokens of a text that have another behind them are quiet. -/
theorem quiet_of_scan (cs : List Char) : (scan cs).Pairwise fun t _ => t.Quiet := by
  have hquote : ∀ (quote : Quote) text, Quiet ⟨quote.kind, text⟩ := fun quote => quiet_of_literal (by cases quote <;> rfl)
  have hbody : ∀ text, Quiet ⟨.literalText, text⟩ := quiet_of_literal rfl
  fun_induction scan cs with
  | case1 => exact .nil
  | case2 c cs ih =>
    have hplain : ∀ kind text, (Piece.cut c cs).1 = .plain kind text → Quiet ⟨kind, String.ofList text⟩ := fun _ _ => Piece.quiet_of_cut
    have hstray : ∀ text, (Piece.cut c cs).1 = .stray text → scan (Piece.cut c cs).2 ≠ [] → ∀ d ∈ text, Calm d :=
      fun text h hne => Piece.calm_of_stray h fun he => hne (by rw [he, scan])
    generalize (Piece.cut c cs).1 = p at hplain hstray
    generalize scan (Piece.cut c cs).2 = ts at ih hstray
    fun_cases Piece.tokensBefore p ts with
    | case1 kind text ts => exact ih.cons fun _ _ => hplain kind text rfl
    | case2 quote ts => exact (ih.cons fun _ _ => hquote quote _).cons fun _ _ => hquote quote _
    | case3 quote body ts => exact ((ih.cons fun _ _ => hquote quote _).cons fun _ _ => hbody _).cons fun _ _ => hquote quote _
    | case4 text more ts =>
      obtain ⟨hmore, hrest⟩ := List.pairwise_cons.mp ih
      refine hrest.cons fun u hu _ _ _ _ => ?_
      simp only [String.toList_append, String.toList_ofList]
      exact List.forall_mem_append.mpr ⟨hstray text rfl (List.cons_ne_nil _ _), hmore u hu rfl rfl (by simp) (by simp)⟩
    | case5 text ts =>
      refine ih.cons fun u hu _ _ _ _ => ?_
      simp only [String.toList_ofList]
      exact hstray text rfl (List.ne_nil_of_mem hu)

/-! ## Tokens of a tree -/

/-- A name stays quiet when it is taken as a keyword. -/
theorem Quiet.recorded {t u : Token} (h : t.Quiet) (hr : t.Recorded u) : u.Quiet := by
  rcases hr with rfl | ⟨hk, rfl⟩
  · exact h
  · exact fun _ _ _ _ => h (by rw [hk]; rfl) (by rw [isTrivia, hk]; rfl) (by simp [hk]) (by simp [hk])

/-- So do tokens in a row. -/
theorem quiet_of_recorded {ts us : List Token} (hr : List.Forall₂ Recorded ts us) (h : ts.Pairwise fun t _ => t.Quiet) :
    us.Pairwise fun t _ => t.Quiet := by
  induction hr with
  | nil => exact .nil
  | cons htu hrest ih =>
    obtain ⟨hfirst, hothers⟩ := List.pairwise_cons.mp h
    refine (ih hothers).cons fun v hv => ?_
    obtain ⟨w, hw, -⟩ := forall₂_mem hrest.flip v hv
    exact (hfirst w hw).recorded htu

namespace Literals

variable {ts us : List Token}

/-- No name is part of a literal, so literals stay complete when names are taken as keywords. -/
theorem recorded (h : Literals ts) (hr : List.Forall₂ Recorded ts us) : Literals us := by
  have hsame : ∀ {kind text u}, kind ≠ .name → Recorded ⟨kind, text⟩ u → u = ⟨kind, text⟩ :=
    fun hk hr => hr.resolve_right fun h => hk h.1
  have hquote : ∀ quote : Quote, quote.kind ≠ .name := fun quote => by cases quote <;> decide
  induction h generalizing us with
  | nil =>
    cases hr
    exact .nil
  | other hq hl _ ih =>
    obtain _ | ⟨htu, hrest⟩ := hr
    rcases htu with rfl | ⟨-, rfl⟩
    · exact .other hq hl (ih hrest)
    · exact .other rfl nofun (ih hrest)
  | empty quote _ ih =>
    obtain _ | ⟨hu, _ | ⟨hv, hrest⟩⟩ := hr
    rw [hsame (hquote quote) hu, hsame (hquote quote) hv]
    exact .empty quote (ih hrest)
  | full quote hne heven _ ih =>
    obtain _ | ⟨hu, _ | ⟨hw, _ | ⟨hv, hrest⟩⟩⟩ := hr
    rw [hsame (hquote quote) hu, hsame (by decide) hw, hsame (hquote quote) hv]
    exact .full quote hne heven (ih hrest)

/-- No trivia are part of a literal either. -/
theorem meant (h : Literals ts) : Literals (ts.filter (!·.isTrivia)) := by
  have hquote : ∀ (quote : Quote) text, Token.isTrivia ⟨quote.kind, text⟩ = false := fun quote text => by cases quote <;> rfl
  have hbody : ∀ text, Token.isTrivia ⟨.literalText, text⟩ = false := fun _ => rfl
  induction h with
  | nil => exact .nil
  | other hq hl _ ih =>
    rw [List.filter_cons]
    split
    · exact .other hq hl ih
    · exact ih
  | empty quote _ ih => simpa [hquote] using ih.empty quote
  | full quote hne heven _ ih => simpa [hquote, hbody] using ih.full quote hne heven

end Literals

section Depth

variable {n m : Nat}

/-- The characters of a token outside literals open or close a parenthesis if the token does. -/
theorem passes_plain {t : Token} (hp : t.kind.isPlain = true) (ht : t.isTrivia = false) (hq : t.Quiet) (hs : t.Spelled)
    (h : Grammar.depthAfter (· = .parenOpen) (· = .parenClose) (fun _ => false) n [t.kind] = some m) :
    Passes ⟨none, n + 1⟩ t.text.toList ⟨none, m + 1⟩ := by
  have hpos : ∀ n : Nat, (0 : Int) < n + 1 := fun n => by omega
  by_cases ho : t.kind = .parenOpen
  · rw [Grammar.depthAfter_open (decide_eq_true ho)] at h
    cases h
    rw [hs.mark "(" (by rw [ho]; rfl)]
    exact .one (hpos n) (hpos (n + 1))
  by_cases hc : t.kind = .parenClose
  · cases n with
    | zero =>
      rw [Grammar.depthAfter_ends ⟨decide_eq_false ho, .inl (decide_eq_true hc)⟩] at h
      cases h
    | succ n =>
      rw [Grammar.depthAfter_close (decide_eq_false ho) (decide_eq_true hc)] at h
      cases h
      have hclosed : ParenState.after ⟨none, (m + 1 : Nat) + 1⟩ ')' = ⟨none, m + 1⟩ := by simp [ParenState.after]
      rw [hs.mark ")" (by rw [hc]; rfl), ← hclosed]
      exact .one (hpos _) (hclosed ▸ hpos m)
  · rw [Grammar.depthAfter_other (decide_eq_false ho) (decide_eq_false hc) (by simp)] at h
    cases h
    exact .calm (hq hp ht ho hc) (hpos n)

/-- The characters of tokens leave as many parentheses open as the tokens do. -/
theorem passes_charsOf {ts : List Token} (hl : Literals ts) (hts : ∀ t ∈ ts, t.isTrivia = false ∧ t.Quiet ∧ t.Spelled)
    (h : Grammar.depthAfter (· = .parenOpen) (· = .parenClose) (fun _ => false) n (ts.map (·.kind)) = some m) :
    Passes ⟨none, n + 1⟩ (charsOf ts) ⟨none, m + 1⟩ := by
  have hpos : ∀ n : Nat, (0 : Int) < n + 1 := fun n => by omega
  have hquote : ∀ (quote : Quote) (n : Nat) (ks : List TokenKind),
      Grammar.depthAfter (· = .parenOpen) (· = .parenClose) (fun _ => false) n (quote.kind :: ks) =
        Grammar.depthAfter (· = .parenOpen) (· = .parenClose) (fun _ => false) n ks :=
    fun quote n ks => by cases quote <;> exact Grammar.depthAfter_other rfl rfl (by simp) ks
  induction hl generalizing n with
  | nil =>
    cases h
    exact .nil (hpos _)
  | @other t ts hq hlit _ ih =>
    obtain ⟨⟨htrivia, hquiet, hs⟩, hts⟩ := List.forall_mem_cons.mp hts
    rw [List.map_cons, ← List.singleton_append, Grammar.depthAfter_append, Option.bind_eq_some_iff] at h
    obtain ⟨k, hk, h⟩ := h
    exact (passes_plain (by simp [TokenKind.isPlain, hq, hlit]) htrivia hquiet hs hk).append (ih hts h)
  | @empty quote ts _ ih =>
    simp only [List.forall_mem_cons] at hts
    simp only [List.map_cons, hquote] at h
    have hpair : charsOf (⟨quote.kind, quote.char.toString⟩ :: ⟨quote.kind, quote.char.toString⟩ :: ts) =
        quote.char :: ([] ++ [quote.char]) ++ charsOf ts := by simp [Char.toString]
    rw [hpair]
    exact (Passes.literal (hpos n) .nil).append (ih hts.2.2 h)
  | @full quote body ts _ heven _ ih =>
    simp only [List.forall_mem_cons] at hts
    simp only [List.map_cons, hquote] at h
    rw [Grammar.depthAfter_other rfl rfl (by simp), hquote] at h
    have hliteral : charsOf (⟨quote.kind, quote.char.toString⟩ :: ⟨.literalText, body⟩ :: ⟨quote.kind, quote.char.toString⟩ :: ts) =
        quote.char :: (body.toList ++ [quote.char]) ++ charsOf ts := by simp [Char.toString]
    rw [hliteral]
    exact (Passes.literal (hpos n) heven).append (ih hts.2.2.2 h)

end Depth

end Token

/-- In a source the characters between two parentheses that belong together leave them open. -/
theorem Parsed.passes_between {source : String} {before inner after : List Token} {opening closing : Token}
    (h : (ofSource source).tree.leaves.filter (!·.isTrivia) = before ++ opening :: (inner ++ closing :: after))
    (ho : opening.kind = .parenOpen) (hc : closing.kind = .parenClose)
    (hb : Grammar.Balanced .parenOpen .parenClose (inner.map (·.kind))) :
    Text.Passes ⟨none, 1⟩ (Token.charsOf inner) ⟨none, 1⟩ := by
  have hrec := recorded_leaves source
  have hliterals := ((Token.literals_scan _).recorded hrec).meant
  have hquiet := (Token.quiet_of_recorded hrec (Token.quiet_of_scan _)).filter (!·.isTrivia)
  rw [h] at hliterals hquiet
  have hinner : Token.Literals inner := ((hliterals.split (by rw [ho]; rfl)).2.split (by rw [hc]; rfl)).1
  refine Token.passes_charsOf hinner (fun t ht => ⟨?_, ?_, ?_⟩) hb
  · have hmem : t ∈ (ofSource source).tree.leaves.filter (!·.isTrivia) := by simp [h, ht]
    simpa using (List.mem_filter.mp hmem).2
  · have hbehind := (List.pairwise_append.mp (List.pairwise_append.mp hquiet).2.1.of_cons).2.2
    exact hbehind t ht closing List.mem_cons_self
  · have hmem : t ∈ (ofSource source).tree.leaves.filter (!·.isTrivia) := by simp [h, ht]
    exact spelled_of_leaf source t (List.mem_filter.mp hmem).1

end QueryStubs
