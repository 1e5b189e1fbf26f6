import QueryStubs.Proofs.Reader.Terms
import QueryStubs.Proofs.Syntax.Steps
import QueryStubs.Proofs.Twin.Pairing

/-!
# Rules that go the same way

`Mirrors T p q P x y A` says that the rules `x` and `y`, which are one rule most of the time, lead from cursors at corresponding places to
cursors at corresponding places and give results that `A` relates. `P` is what may be counted on at the start of the first reading, `p`
and `q` say whether a lexeme is known to have been taken before and after.

It is enough to know this of readings in which no defect is recorded, as it is in every reading (`defects_done`): so a rule may
count on every condition that the grammar puts on itself, and needs no other account of where a reader can stand.
-/

namespace QueryStubs.Grammar

open QueryStubs

variable {K : Pairing}

/-- Defects that were recorded stay recorded. -/
def Keeping (x : Rule α) : Prop := ∀ c, (x c).2.defects = [] → c.defects = []

/-- One rule after another. -/
theorem Keeping.bind {x : Rule α} {f : α → Rule β} (hx : Keeping x) (hf : ∀ a, Keeping (f a)) : Keeping (x >>= f) :=
  fun c hn => hx c (hf (x c).1 _ hn)

/-- The rules lead from corresponding places to corresponding places, with results that correspond. -/
structure Mirrors (T : Rows K) (p q : Prop) (P : Outlook → Prop) (x : Rule α) (y : Rule β) (A : α → β → Outlook → Prop) : Prop where
  keeping : Keeping x
  agree : ∀ c d : Cursor, T.Twin p c.toReading d.toReading → P c.outlook → (x c).2.defects = [] →
    A (x c).1 (y d).1 (x c).2.outlook ∧ T.Twin q (x c).2.toReading (y d).2.toReading

/-- The same result on both sides. -/
def Same (a b : α) (_ : Outlook) : Prop := a = b

/-- Nothing is asked of the outlook. -/
def Anywhere (_ : Outlook) : Prop := True

namespace Mirrors

variable {T : Rows K} {p q r : Prop} {P P' : Outlook → Prop}

/-- More may be assumed and less told. -/
theorem imp {x : Rule α} {y : Rule β} {A A' : α → β → Outlook → Prop} (h : Mirrors T p q P x y A) (hP : ∀ o, P' o → P o)
    (hA : ∀ a b o, A a b o → A' a b o) : Mirrors T p q P' x y A' where
  keeping := h.keeping
  agree c d ht hp hn := by
    obtain ⟨ha, hq⟩ := h.agree c d ht (hP _ hp) hn
    exact ⟨hA _ _ _ ha, hq⟩

/-- More may be assumed. -/
theorem of_imp {x : Rule α} {y : Rule β} {A : α → β → Outlook → Prop} (h : Mirrors T p q P x y A) (hP : ∀ o, P' o → P o) :
    Mirrors T p q P' x y A :=
  h.imp hP fun _ _ _ ha => ha

/-- What holds anywhere holds in particular. -/
theorem anywhere {x : Rule α} {y : Rule β} {A : α → β → Outlook → Prop} (h : Mirrors T p q Anywhere x y A) : Mirrors T p q P x y A :=
  h.of_imp fun _ _ => trivial

/-- What is known to have been taken may be forgotten. -/
theorem forget {x : Rule α} {y : Rule β} {A : α → β → Outlook → Prop} (h : Mirrors T p q P x y A) (hq : r → q) :
    Mirrors T p r P x y A where
  keeping := h.keeping
  agree c d ht hp hn := by
    obtain ⟨ha, hq'⟩ := h.agree c d ht hp hn
    exact ⟨ha, hq'.weaken hq⟩

/-- What is left of the declaration that is compared may be counted on. -/
theorem of_left {x : Rule α} {y : Rule β} {A : α → β → Outlook → Prop}
    (h : Mirrors T p q (fun o => P o ∧ ∃ run, o.ahead = run ++ K.rest₁ ∧ K.Left p run) x y A) : Mirrors T p q P x y A where
  keeping := h.keeping
  agree _ _ ht hp hn := by
    obtain ⟨run, _, hc, _, _, hl⟩ := ht.ahead
    exact h.agree _ _ ht ⟨hp, run, hc, hl⟩ hn

/-- Results that correspond are given back. -/
theorem pure {a : α} {b : β} {A : α → β → Outlook → Prop} (h : ∀ o, P o → A a b o) :
    Mirrors T p p P (pure a : Rule α) (Pure.pure b : Rule β) A where
  keeping _ hn := hn
  agree _ _ ht hp _ := ⟨h _ hp, ht⟩

/-- The same result is given back. -/
theorem done (a : α) : Mirrors T p p P (Pure.pure a : Rule α) (Pure.pure a : Rule α) Same := pure fun _ _ => rfl

/-- One rule after another. -/
theorem bind {x : Rule α} {y : Rule β} {f : α → Rule γ} {g : β → Rule δ} {A : α → β → Outlook → Prop} {B : γ → δ → Outlook → Prop}
    (hx : Mirrors T p q P x y A) (hf : ∀ a b, Mirrors T q r (A a b) (f a) (g b) B) :
    Mirrors T p r P (x >>= f) (y >>= g) B where
  keeping c hn := hx.keeping c ((hf (x c).1 (y c).1).keeping _ hn)
  agree c d ht hp hn := by
    have hn' : (f (x c).1 (x c).2).2.defects = [] := hn
    obtain ⟨ha, hq⟩ := hx.agree c d ht hp ((hf (x c).1 (y d).1).keeping _ hn')
    exact (hf _ _).agree _ _ hq ha hn'

/-- One rule after another, where the first gives the same result on both sides. What is known whatever the outlook stays known. -/
theorem andKnown {F : Prop} {x : Rule α} {y : Rule α} {f : α → Rule γ} {g : α → Rule δ} {B : γ → δ → Outlook → Prop}
    (hP : ∀ o, P o → F) (hx : Mirrors T p q P x y Same) (hf : ∀ a, Mirrors T q r (fun _ => F) (f a) (g a) B) :
    Mirrors T p r P (x >>= f) (y >>= g) B where
  keeping := hx.keeping.bind fun a => (hf a).keeping
  agree c d ht hp hn := by
    have hn' : (f (x c).1 (x c).2).2.defects = [] := hn
    obtain ⟨ha, hq⟩ := hx.agree c d ht hp ((hf (x c).1).keeping _ hn')
    have ha : (x c).1 = (y d).1 := ha
    have h := (hf (x c).1).agree _ _ hq (hP _ hp) hn'
    rw [bind_run, bind_run, ← ha]
    exact h

/-- One rule after another, where the first gives the same result on both sides. -/
theorem andThen {x : Rule α} {y : Rule α} {f : α → Rule γ} {g : α → Rule δ} {B : γ → δ → Outlook → Prop}
    (hx : Mirrors T p q P x y Same) (hf : ∀ a, Mirrors T q r Anywhere (f a) (g a) B) : Mirrors T p r P (x >>= f) (y >>= g) B :=
  andKnown (fun _ _ => trivial) hx hf

/-- The same branch is taken on both sides. -/
theorem ite {b : Bool} {x x' : Rule α} {y y' : Rule β} {A : α → β → Outlook → Prop} (hx : Mirrors T p q P x y A)
    (hy : Mirrors T p q P x' y' A) : Mirrors T p q P (if b = true then x else x') (if b = true then y else y') A := by
  cases b with
  | true => exact hx
  | false => exact hy

/-- The same branch is taken on both sides because what decides is known to be the same. -/
theorem ite_known {b b' : Bool} {x x' : Rule α} {y y' : Rule β} {A : α → β → Outlook → Prop} (hb : ∀ o, P o → b = b')
    (hx : Mirrors T p q (fun o => P o ∧ b = true) x y A) (hy : Mirrors T p q (fun o => P o ∧ b = false) x' y' A) :
    Mirrors T p q P (if b = true then x else x') (if b' = true then y else y') A where
  keeping := by
    cases b with
    | true => exact hx.keeping
    | false => exact hy.keeping
  agree c d ht hp hn := by
    obtain rfl := hb _ hp
    cases b with
    | true => exact hx.agree c d ht ⟨hp, rfl⟩ hn
    | false => exact hy.agree c d ht ⟨hp, rfl⟩ hn

/-- Nothing has to be shown of what cannot be. -/
theorem never {x : Rule α} {y : Rule β} {A : α → β → Outlook → Prop} (hx : Keeping x) (hP : ∀ o, ¬ P o) : Mirrors T p q P x y A where
  keeping := hx
  agree _ _ _ hp _ := absurd hp (hP _)

/-- What a look found is known to the rule that follows, and so is what was known before. -/
theorem look {x : Rule α} {C : α → Outlook → Prop} {f : α → Rule γ} {g : α → Rule δ} {B : γ → δ → Outlook → Prop}
    (hx : Mirrors T p p P x x Same) (hk : Keeps x C) (hf : ∀ a, Mirrors T p q (fun o => P o ∧ C a o) (f a) (g a) B) :
    Mirrors T p q P (x >>= f) (x >>= g) B where
  keeping := hx.keeping.bind fun a => (hf a).keeping
  agree c d ht hp hn := by
    have hn' : (f (x c).1 (x c).2).2.defects = [] := hn
    obtain ⟨ha, hq⟩ := hx.agree c d ht hp ((hf (x c).1).keeping _ hn')
    obtain ⟨hr, hc⟩ := hk c
    have ho : (x c).2.outlook = c.outlook := congrArg Reading.outlook hr
    rw [bind_run, bind_run, ← show (x c).1 = (x d).1 from ha]
    exact (hf _).agree _ _ hq ⟨ho ▸ hp, ho ▸ hc⟩ hn'

/-- A look decides between two rules, the same on both sides, and each of them may count on what the look found. -/
theorem test {t : Rule Bool} {C : Outlook → Prop} {x x' : Rule α} {y y' : Rule β} {A : α → β → Outlook → Prop}
    (ht : Mirrors T p p P t t Same) (hk : Keeps t fun b o => b = true ↔ C o)
    (hx : Mirrors T p q (fun o => P o ∧ C o) x y A) (hy : Mirrors T p q (fun o => P o ∧ ¬ C o) x' y' A) :
    Mirrors T p q P (t >>= fun b => if b = true then x else x') (t >>= fun b => if b = true then y else y') A := by
  refine look ht hk fun b => ?_
  cases b with
  | true => exact hx.of_imp fun o h => ⟨h.1, h.2.mp rfl⟩
  | false => exact hy.of_imp fun o h => ⟨h.1, fun hc => nomatch h.2.mpr hc⟩

/-- If the first rule was complete the second follows; else nothing does. -/
theorem whenDone {x y : Rule Bool} {f g : Rule Bool} (hx : Mirrors T p q P x y Same) (hf : Mirrors T q q Anywhere f g Same) :
    Mirrors T p q P (x >>= fun b => if b = true then f else Pure.pure false) (y >>= fun b => if b = true then g else Pure.pure false) Same :=
  hx.andThen fun _ => ite hf (done false)

end Mirrors

/-! ## Looking ahead -/

/-- The first `i` lexemes ahead are there, and none of them is a semicolon. -/
def Outlook.Clear (i : Nat) (o : Outlook) : Prop := ∀ j < i, ∃ l, o.ahead[j]? = some l ∧ l.kind ≠ .semicolon

/-- The lexeme `i` places ahead is not behind what is compared. -/
def Pairing.Reach (K : Pairing) (i : Nat) (o : Outlook) : Prop := K.whole ∨ o.Clear i

/-- The next lexeme is always compared. -/
theorem Pairing.reach_zero (o : Outlook) : K.Reach 0 o := .inr fun _ hj => absurd hj (Nat.not_lt_zero _)

/-- What is left of a declaration ends with its one semicolon. -/
theorem Pairing.Left.ends {taken : Prop} {run : List Lexeme} (h : K.Left taken run) (hw : ¬ K.whole) :
    ∃ inner semicolon, run = inner ++ [semicolon] ∧ semicolon.kind = .semicolon ∧ ∀ l ∈ inner, l.kind ≠ .semicolon := by
  obtain ⟨⟨before, hsuffix⟩, hne, -⟩ := h.resolve_left hw
  obtain ⟨inner, semicolon, hseg, hkind, hinner⟩ := (K.segment_part hw).last
  obtain ⟨front, last, rfl⟩ := (List.eq_nil_or_concat run).resolve_left hne
  rw [hseg, List.concat_eq_append, List.map_append, List.map_singleton, ← List.append_assoc] at hsuffix
  obtain ⟨hfront, hlast⟩ := List.append_inj' hsuffix rfl
  refine ⟨front, last, List.concat_eq_append, ?_, fun l hl => hinner _ (hfront ▸ ?_)⟩
  · rw [Lexeme.kind, List.singleton_inj.mp hlast]
    exact hkind
  · exact List.mem_append_right _ (List.mem_map_of_mem hl)

/-- What is compared reaches as far as one can look. -/
theorem Pairing.Left.lt_length {taken : Prop} {run : List Lexeme} (h : K.Left taken run) (hw : ¬ K.whole) {i : Nat} {o : Outlook}
    (ho : o.ahead = run ++ K.rest₁) (hi : o.Clear i) : i < run.length := by
  obtain ⟨inner, semicolon, rfl, hkind, -⟩ := h.ends hw
  by_contra hle
  rw [List.length_append, List.length_singleton] at hle
  obtain ⟨l, hl, hne⟩ := hi inner.length (by omega)
  rw [ho, List.append_assoc, List.getElem?_append_right (Nat.le_refl _), Nat.sub_self] at hl
  cases hl
  exact hne hkind

/-- The lexeme before a place does not depend on what is behind. -/
theorem Pairing.before_append {ls ks : List Lexeme} {i : Nat} (hi : i < ls.length) : before (ls ++ ks) i = before ls i := by
  cases i with
  | zero => rfl
  | succ i => exact List.getElem?_append_left (by omega)

namespace Rows.Twin

variable {T : Rows K} {p : Prop} {c d : Reading}

/-- Lexemes in the same place ahead of cursors at corresponding places correspond. -/
theorem get (h : T.Twin p c d) {i : Nat} (hi : K.Reach i c.outlook) :
    Option.Rel (K.Seen (Pairing.before c.ahead i)) c.ahead[i]? d.ahead[i]? := by
  obtain ⟨run₁, run₂, hc, hd, hp, hl⟩ := h.ahead
  by_cases hw : K.whole
  · obtain ⟨h1, h2⟩ := K.rest_whole hw
    rw [h1, List.append_nil] at hc
    rw [h2, List.append_nil] at hd
    rw [hc, hd]
    exact hp.get i
  · have hlt := hl.lt_length hw (o := c.outlook) hc (hi.resolve_left hw)
    rw [hc, hd, Pairing.before_append hlt, List.getElem?_append_left hlt, List.getElem?_append_left (hp.length ▸ hlt)]
    exact hp.get i

/-- Equally much is ahead, but for what is behind what is compared. -/
theorem length (h : T.Twin p c d) :
    ∃ n, c.ahead.length = n + K.rest₁.length ∧ d.ahead.length = n + K.rest₂.length := by
  obtain ⟨run₁, run₂, hc, hd, hp, -⟩ := h.ahead
  exact ⟨run₁.length, by rw [hc, List.length_append], by rw [hd, List.length_append, hp.length]⟩

/-- Either both cursors stand at the end, or at lexemes that correspond. -/
theorem next (h : T.Twin p c d) :
    (K.whole ∧ c.ahead = [] ∧ d.ahead = []) ∨ ∃ l ls k ks, c.ahead = l :: ls ∧ d.ahead = k :: ks ∧ K.Seen none l k := by
  have hget := h.get (K.reach_zero c.outlook)
  rw [← List.head?_eq_getElem?, ← List.head?_eq_getElem?] at hget
  cases hc : c.ahead with
  | nil =>
    obtain ⟨run₁, run₂, hc', hd, hp, hl⟩ := h.ahead
    obtain ⟨rfl, -⟩ := List.append_eq_nil_iff.mp (hc'.symm.trans hc)
    have hw : K.whole := hl.elim id fun h => absurd rfl h.2.1
    cases hp
    exact .inl ⟨hw, rfl, by rw [hd, (K.rest_whole hw).2]; rfl⟩
  | cons l ls =>
    rw [hc] at hget
    cases hd : d.ahead with
    | nil =>
      rw [hd] at hget
      cases hget
    | cons k ks =>
      rw [hd] at hget
      cases hget with
      | some hs => exact .inr ⟨l, ls, k, ks, rfl, rfl, hs⟩

/-- The ranges of what comes next correspond. -/
theorem nextSpan {c d : Cursor} (h : T.Twin p c.toReading d.toReading) (hw : K.whole) : K.Next c.nextSpan d.nextSpan := by
  have hf := h.followed hw
  unfold Cursor.nextSpan
  rcases h.next with ⟨-, hc, hd⟩ | ⟨l, ls, k, ks, hc, hd, hs⟩
  · rw [hc, hd, hf.limit₁, hf.limit₂]
    exact .inr ⟨rfl, rfl⟩
  · rw [hc, hd]
    exact .inl hs.span

end Rows.Twin

variable {T : Rows K} {p q : Prop} {P : Outlook → Prop}

/-- A demand that is recorded nowhere was met. -/
theorem demand_met {condition : Bool} {defect : Defect} {c : Cursor} (h : (c.demand condition defect).defects = []) :
    condition = true ∧ c.defects = [] := by
  unfold Cursor.demand at h
  split at h
  · next hb => exact ⟨hb, h⟩
  · exact absurd h (by simp)

/-- A look that finds the same on both sides goes the same way. -/
theorem Mirrors.of_keeps {x : Rule α} {y : Rule β} {B : α → Outlook → Prop} {C : β → Outlook → Prop} {A : α → β → Outlook → Prop}
    (hx : Keeping x) (hk : Keeps x B) (hk' : Keeps y C)
    (h : ∀ (a : α) (b : β) (c d : Reading), T.Twin p c d → P c.outlook → B a c.outlook → C b d.outlook → A a b c.outlook) :
    Mirrors T p p P x y A where
  keeping := hx
  agree c d ht hp _ := by
    obtain ⟨hr, hb⟩ := hk c
    obtain ⟨hr', hc⟩ := hk' d
    rw [hr']
    refine ⟨?_, hr.symm ▸ ht⟩
    rw [show (x c).2.outlook = c.outlook from congrArg Reading.outlook hr]
    exact h _ _ c.toReading d.toReading ht hp hb hc

/-- What is done to the tree that is put together makes no difference. -/
theorem build_mirrors (build : Cursor → Builder) :
    Mirrors T p p P (modify fun c => { c with builder := build c }) (modify fun c => { c with builder := build c }) fun _ _ => P :=
  ⟨fun _ hn => hn, fun _ _ ht hp _ => ⟨hp, ht⟩⟩

/-- Nor does it to look past trivia. -/
theorem lookPast_mirrors : Mirrors T p p P lookPast lookPast fun _ _ => P := build_mirrors _

/-- A look for a lexeme that forgets no defect. -/
structure Finds (i : Nat) (x : Rule (Option Lexeme)) : Prop where
  keeping : Keeping x
  keeps : Keeps x fun a o => a = o.ahead[i]?

/-- A look that goes past trivia is one. -/
theorem peek_finds (i : Nat) : Finds i (peek i) := ⟨fun _ hn => (demand_met hn).2, (peek_looks i).keeps⟩

/-- So is a look that counts tokens. -/
theorem peekRaw_finds (i : Nat) : Finds i (peekRaw i) := ⟨fun _ hn => (demand_met hn).2, (peekRaw_looks i).keeps⟩

namespace Finds

variable {i : Nat} {x : Rule (Option Lexeme)}

/-- What is found ahead on one side is found on the other. -/
theorem mirrors (h : Finds i x) (hi : ∀ o, P o → K.Reach i o) :
    Mirrors T p p P x x fun a b o => P o ∧ a = o.ahead[i]? ∧ Option.Rel (K.Seen (Pairing.before o.ahead i)) a b :=
  .of_keeps h.keeping h.keeps h.keeps fun a b c d ht hp ha hb => by
    rw [show a = _ from ha, show b = _ from hb]
    exact ⟨hp, rfl, ht.get (hi _ hp)⟩

/-- What is made of a lexeme ahead is the same on both sides if it goes by what corresponds. -/
theorem map (h : Finds i x) {g : Option Lexeme → α} (hi : ∀ o, P o → K.Reach i o)
    (hg : ∀ o l k, P o → o.ahead[i]? = some l → K.Seen (Pairing.before o.ahead i) l k → g (some l) = g (some k)) :
    Mirrors T p p P (do return g (← x)) (do return g (← x)) Same :=
  (h.mirrors hi).bind fun a b => .pure fun o ⟨hp, ha, hr⟩ => by
    cases hr with
    | none => rfl
    | some hs => exact hg o _ _ hp ha.symm hs

end Finds

/-- Both readings see the same kind come next. -/
theorem nextKind_mirrors : Mirrors T p p P nextKind nextKind Same :=
  (peek_finds 0).map (fun o _ => K.reach_zero o) fun _ _ _ _ _ hs => by simp [Lexeme.kind, hs.token]

/-- Both see a lexeme of a kind come next, or neither does. -/
theorem sees_mirrors (kind : TokenKind) : Mirrors T p p P (sees kind) (sees kind) Same := nextKind_mirrors.andThen fun _ => .done _

/-- Both see a lexeme of a kind as far ahead as the two are compared. -/
theorem seesAt_mirrors (i : Nat) (kind : TokenKind) (hi : ∀ o, P o → K.Reach i o) :
    Mirrors T p p P (seesAt i kind) (seesAt i kind) Same :=
  (peek_finds i).map hi fun _ _ _ _ _ hs => by simp [Lexeme.kind, hs.token]

/-- Whether a lexeme touches the one before it is asked of colons, of what follows a colon, and of the text of literals. -/
theorem seesTouching_mirrors (i : Nat) (kind : TokenKind) (hi : ∀ o, P o → K.Reach i o)
    (hk : kind = .colon ∨ kind = .literalText ∨ ∀ o, P o → (Pairing.before o.ahead i).any (fun m => m.kind = .colon) = true) :
    Mirrors T p p P (seesTouching i kind) (seesTouching i kind) Same := by
  refine (peekRaw_finds i).map hi fun o l k hp _ hs => ?_
  have hkind : l.kind = k.kind := by rw [Lexeme.kind, hs.token, Lexeme.kind]
  by_cases hl : l.kind = kind
  · have ht : l.touches = k.touches := by
      refine hs.touches ?_
      rcases hk with rfl | rfl | hk
      · exact .inr (.inl hl)
      · exact .inr (.inr hl)
      · exact .inl (hk o hp)
    simp [ht, hkind]
  · simp [hl, ← hkind]

/-- Both see a word as far ahead as the two are compared. -/
theorem seesWordAt_mirrors (i : Nat) (word : String) (hi : ∀ o, P o → K.Reach i o) :
    Mirrors T p p P (seesWordAt i word) (seesWordAt i word) Same :=
  (peek_finds i).map hi fun _ _ _ _ _ hs => by simp [Lexeme.isWord, hs.token]

/-- Both see a word come next, or neither does. -/
theorem seesWord_mirrors (word : String) : Mirrors T p p P (seesWord word) (seesWord word) Same :=
  seesWordAt_mirrors 0 word fun o _ => K.reach_zero o

/-- Both find the same name as far ahead as the two are compared. -/
theorem wordAt?_mirrors (i : Nat) (hi : ∀ o, P o → K.Reach i o) : Mirrors T p p P (wordAt? i) (wordAt? i) Same :=
  (peek_finds i).map hi fun _ l k _ _ hs => by
    by_cases hn : k.token.kind = .name <;> simp [Lexeme.kind, Option.filter, hs.token, hn]

/-- No defect is forgotten where it is asked whether anything is left. -/
theorem atEnd_keeping : Keeping atEnd := fun _ hn => hn

/-- Both have something left, or neither does. -/
theorem atEnd_mirrors : Mirrors T p p P atEnd atEnd Same :=
  .of_keeps atEnd_keeping atEnd_looks.keeps atEnd_looks.keeps fun a b c d ht _ ha hb => by
    have hcd : c.outlook.ahead = [] ↔ d.outlook.ahead = [] := by
      rcases ht.next with ⟨-, hc, hd⟩ | ⟨l, ls, k, ks, hc, hd, -⟩ <;> simp [Reading.outlook, hc, hd]
    exact Bool.eq_iff_iff.mpr (ha.trans (hcd.trans hb.symm))

/-- The spelling of the next lexeme is read off. -/
theorem nextText_run (c : Cursor) : nextText c = ((c.ahead.head?.map (·.token.text)).getD "", c.look) := by
  obtain ⟨⟨parts, _ | ⟨l, ls⟩⟩⟩ := c <;> rfl

/-- Both find the same text come next. -/
theorem nextText_mirrors : Mirrors T p p P nextText nextText Same where
  keeping c hn := by
    rw [nextText_run] at hn
    exact hn
  agree c d ht _ _ := by
    rw [nextText_run, nextText_run]
    refine ⟨?_, ht⟩
    rcases ht.next with ⟨-, hc, hd⟩ | ⟨l, ls, k, ks, hc, hd, hs⟩
    · simp [Same, hc, hd]
    · simp [Same, hc, hd, hs.token]

/-- The range of the next lexeme, where there is one, corresponds. -/
theorem nextSpan_mirrors (hP : ∀ o, P o → o.ahead ≠ []) :
    Mirrors T p p P nextSpan nextSpan fun s t o => K.same s t ∧ P o :=
  .of_keeps (fun _ hn => hn) nextSpan_looks.keeps nextSpan_looks.keeps fun a b c d ht hp ha hb => by
    rcases ht.next with ⟨-, hc, -⟩ | ⟨l, ls, k, ks, hc, hd, hs⟩
    · exact absurd hc (hP _ hp)
    · rw [ha l ls hc, hb k ks hd]
      exact ⟨hs.span, hp⟩

/-- The prefix of the module is the same on both sides. -/
theorem modulePrefix_mirrors {f g : Option String → Rule α} {A : α → α → Outlook → Prop}
    (h : ∀ bound, Mirrors T p q P (f bound) (g bound) A) :
    Mirrors T p q P (get >>= fun c => f c.modulePrefix) (get >>= fun d => g d.modulePrefix) A where
  keeping c hn := (h c.modulePrefix).keeping c hn
  agree c d ht hp hn := by
    have hagree := (h c.modulePrefix).agree c d ht hp hn
    change A (f c.modulePrefix c).1 (g d.modulePrefix d).1 _ ∧ T.Twin q _ (g d.modulePrefix d).2.toReading
    rw [← ht.modulePrefix]
    exact hagree

/-- A condition of the grammar on itself may be counted on. -/
theorem demand_mirrors (condition condition' : Bool) (defect : Defect) :
    Mirrors T p p P (demand condition defect) (demand condition' defect) fun _ _ o => condition = true ∧ P o where
  keeping _ hn := (demand_met hn).2
  agree c d ht hp hn := by
    obtain ⟨hr, -⟩ := demand_keeps condition defect c
    obtain ⟨hr', -⟩ := demand_keeps condition' defect d
    have ho : (demand condition defect c).2.outlook = c.outlook := congrArg Reading.outlook hr
    exact ⟨⟨(demand_met hn).1, ho ▸ hp⟩, hr ▸ hr' ▸ ht⟩

/-! ## Taking lexemes and building nodes -/

/-- What is compared goes on behind the next lexeme. -/
theorem Rows.Twin.uncons {c d : Reading} {l : Lexeme} {ls : List Lexeme} (h : T.Twin p c d) (hc : c.ahead = l :: ls)
    (hr : K.Reach 1 c.outlook) :
    ∃ k ks, d.ahead = k :: ks ∧ K.Pair l k ∧
      ∃ run₁ run₂, ls = run₁ ++ K.rest₁ ∧ ks = run₂ ++ K.rest₂ ∧ K.Paired false run₁ run₂ ∧ K.Left True run₁ := by
  obtain ⟨run₁, run₂, hc', hd, hp, hl⟩ := h.ahead
  cases hp with
  | nil =>
    have hw : K.whole := hl.elim id fun h => absurd rfl h.2.1
    rw [hc, List.nil_append, (K.rest_whole hw).1] at hc'
    cases hc'
  | @cons _ l' k ls' ks hpair _ hrest =>
    obtain ⟨rfl, rfl⟩ := List.cons.inj (hc.symm.trans hc')
    refine ⟨k, _, hd, hpair, ls', ks, rfl, rfl, hrest.weaken, ?_⟩
    by_cases hw : K.whole
    · exact .inl hw
    · obtain ⟨hsuffix, -, -⟩ := hl.resolve_left hw
      have hlt := hl.lt_length hw (o := c.outlook) hc' (hr.resolve_left hw)
      refine .inr ⟨(List.suffix_cons _ _).trans hsuffix, ?_, fun _ he => ?_⟩
      · rintro rfl
        exact absurd hlt (Nat.lt_irrefl _)
      · have hle := hsuffix.length_le
        rw [← he, List.length_map, List.length_map, List.length_cons] at hle
        omega

/-- Taking a lexeme is without a defect only if one is there. -/
theorem advance_keeping {record : Token → Token} {r : Rule Unit} (hr : ∀ c, r c = ((), c.advance record)) : Keeping r := by
  intro c hn
  rw [hr, Cursor.advance] at hn
  split at hn
  · exact (demand_met hn).2
  · exact hn

/-- Taking a lexeme on both sides. What holds behind it may be counted on. -/
theorem advance_mirrors {record : Token → Token} {r : Rule Unit} {Q : Outlook → Prop} (hr : ∀ c, r c = ((), c.advance record))
    (h1 : ∀ o, P o → K.Reach 1 o) (hQ : ∀ l ls tail place, P ⟨l :: ls, tail, place⟩ → Q ⟨ls, tail, l.span.stop⟩) :
    Mirrors T p q P r r fun _ _ => Q where
  keeping := advance_keeping hr
  agree c d ht hp hn := by
    rw [hr] at hn
    rw [hr, hr]
    unfold Cursor.advance at hn ⊢
    cases hc : c.ahead with
    | nil =>
      simp only [hc] at hn
      exact absurd (demand_met hn).1 Bool.false_ne_true
    | cons l ls =>
      obtain ⟨k, ks, hd, hpair, hahead⟩ := ht.uncons hc (h1 _ hp)
      have hp' : P ⟨l :: ls, c.tail, c.reached⟩ := hc ▸ hp
      simp only [hd]
      refine ⟨hQ l ls _ _ hp', (Rows.Twin.weaken (p := True) ?_ fun _ => trivial)⟩
      refine ⟨hahead, ?_, ht.modulePrefix, ht.alone, fun hw => ?_⟩
      · rw [hpair.token]
        exact T.rows.append (T.rows.append ht.parts (T.rows.lead hpair.lead)) (T.rows.leaf _)
      · have hf := ht.followed hw
        exact ⟨hf.tail, hf.limit₁, hf.limit₂, hf.reports, hf.lastReport, fun _ => ⟨_, _, hpair.span, rfl, rfl⟩⟩

/-- Taking the next lexeme on both sides. -/
theorem take_mirrors (h1 : ∀ o, P o → K.Reach 1 o) : Mirrors T p p P take take fun _ _ => Anywhere :=
  advance_mirrors (fun _ => rfl) h1 fun _ _ _ _ _ => trivial

/-- Taking the next lexeme as a keyword on both sides. -/
theorem takeKeyword_mirrors (h1 : ∀ o, P o → K.Reach 1 o) : Mirrors T p p P takeKeyword takeKeyword fun _ _ => Anywhere :=
  advance_mirrors (fun _ => rfl) h1 fun _ _ _ _ _ => trivial

/-- Placing trivia on both sides. -/
theorem placeTrivia_mirrors {Q : Outlook → Prop} (hQ : ∀ o, P o → Q o.placed) :
    Mirrors T p p P placeTrivia placeTrivia fun _ _ => Q where
  keeping _ hn := hn
  agree c d ht hp _ := by
    have ho : (placeTrivia c).2.outlook = c.outlook.placed := outlook_placeTrivia c
    refine ⟨ho ▸ hQ _ hp, ?_⟩
    change T.Twin p c.placeTrivia.toReading d.placeTrivia.toReading
    unfold Cursor.placeTrivia Cursor.nextTrivia
    rcases ht.next with ⟨hw, hc, hd⟩ | ⟨l, ls, k, ks, hc, hd, hs⟩
    · have hf := ht.followed hw
      rw [hc, hd]
      refine ⟨⟨[], [], (K.rest_whole hw).1.symm, (K.rest_whole hw).2.symm, .nil false, .inl hw⟩,
        T.rows.append ht.parts (T.rows.lead hf.tail), ht.modulePrefix, .inl hw, fun _ => ?_⟩
      exact ⟨K.leads_nil, hf.limit₁, hf.limit₂, hf.reports, hf.lastReport, hf.reached⟩
    · obtain ⟨run₁, run₂, hc', hd', hpair, hl⟩ := ht.ahead
      rw [hc, hd]
      refine ⟨?_, T.rows.append ht.parts (T.rows.lead hs.lead), ht.modulePrefix, ht.alone, fun hw => ?_⟩
      · cases hpair with
        | nil =>
          have hw : K.whole := hl.elim id fun h => absurd rfl h.2.1
          rw [hc, List.nil_append, (K.rest_whole hw).1] at hc'
          cases hc'
        | @cons _ l' k' ls' ks' hlk _ hrest =>
          obtain ⟨rfl, rfl⟩ := List.cons.inj (hc.symm.trans hc')
          obtain ⟨rfl, rfl⟩ := List.cons.inj (hd.symm.trans hd')
          refine ⟨l.bare :: ls', k.bare :: ks', rfl, rfl, .cons ⟨hs.token, K.leads_nil, hs.span⟩ (fun _ => rfl) hrest, ?_⟩
          exact hl.imp id fun ⟨h1, _, h3⟩ => ⟨h1, List.cons_ne_nil _ _, h3⟩
      · have hf := ht.followed hw
        exact ⟨hf.tail, hf.limit₁, hf.limit₂, hf.reports, hf.lastReport, hf.reached⟩

/-- Reading the inside of a node on both sides, where rows inside correspond so that the nodes do. -/
theorem nodeWithLead_mirrors {T' : Rows K} {kind : NodeKind} {x : Rule α} {y : Rule β} {A : α → β → Outlook → Prop}
    (hrows : ∀ {ts us : List Tree}, T'.rows.rel ts us → T.rows.rel [.node kind ts] [.node kind us]) (h : Mirrors T' p q P x y A) :
    Mirrors T p q P (nodeWithLead kind x) (nodeWithLead kind y) A where
  keeping c hn := h.keeping (c.startNode kind) hn
  agree c d ht hp hn := by
    obtain ⟨ha, hq⟩ := h.agree (c.startNode kind) (d.startNode kind)
      ⟨ht.ahead, T'.rows.nil, ht.modulePrefix, ht.alone, fun hw => (ht.followed hw).parts⟩ hp hn
    exact ⟨ha, hq.ahead, T.rows.append ht.parts (hrows hq.parts), hq.modulePrefix, hq.alone, fun hw => (hq.followed hw).parts⟩

/-- A node is read without a defect only if its inside is. -/
theorem node_keeping {kind : NodeKind} {x : Rule α} (hx : Keeping x) : Keeping (node kind x) :=
  fun c hn => hx (c.placeTrivia.startNode kind) hn

/-- Reading a node on both sides. -/
theorem nodeOf_mirrors {T' : Rows K} {kind : NodeKind} {x : Rule α} {y : Rule β} {A : α → β → Outlook → Prop} {R : Outlook → Prop}
    (hrows : ∀ {ts us : List Tree}, T'.rows.rel ts us → T.rows.rel [.node kind ts] [.node kind us]) (h : Mirrors T' p q R x y A)
    (hP : ∀ o, P o → R o.placed) : Mirrors T p q P (node kind x) (node kind y) A :=
  (placeTrivia_mirrors hP).bind fun _ _ => nodeWithLead_mirrors hrows h

/-- Reading a node of a construct on both sides. -/
theorem node_mirrors {kind : NodeKind} {x : Rule α} {y : Rule β} {A : α → β → Outlook → Prop} {R : Outlook → Prop}
    (h : Mirrors T p q R x y A) (he : kind ≠ .error) (hm : kind ≠ .occurrence) (hP : ∀ o, P o → R o.placed) :
    Mirrors T p q P (node kind x) (node kind y) A :=
  nodeOf_mirrors (T.node he hm) h hP

/-- Reading a node for what cannot be used on both sides. -/
theorem errorNode_mirrors {x : Rule α} {y : Rule β} {A : α → β → Outlook → Prop} {R : Outlook → Prop}
    (h : Mirrors T.spoil p q R x y A) (hP : ∀ o, P o → R o.placed) : Mirrors T p q P (node .error x) (node .error y) A :=
  nodeOf_mirrors T.error h hP

/-! ## Loops -/

/-- A loop keeps the defects that its rounds keep. -/
theorem repeatRule_keeping {step : σ → Rule (Bool × σ)} (h : ∀ a, Keeping (step a)) (a : σ) : Keeping (repeatRule step a) := by
  intro c hn
  fun_induction repeatRule step a c with
  | case1 a c a' c' hs => exact h a c (hs ▸ hn)
  | case2 a c a' c' hs _ ih => exact h a c (hs ▸ ih hn)
  | case3 a c a' c' hs _ => exact h a c (hs ▸ (demand_met hn).2)

/-- Rounds that go the same way make loops that do. -/
theorem repeatRule_mirrors {step : σ → Rule (Bool × σ)} {step' : τ → Rule (Bool × τ)} {I Q : σ → τ → Outlook → Prop}
    (h : ∀ a b, Mirrors T p p (I a b) (step a) (step' b) fun r s o => r.1 = s.1 ∧ if r.1 = true then I r.2 s.2 o else Q r.2 s.2 o)
    (a : σ) (b : τ) : Mirrors T p p (I a b) (repeatRule step a) (repeatRule step' b) Q where
  keeping := repeatRule_keeping (fun a => (h a b).keeping) a
  agree c d ht hp hn := by
    fun_induction repeatRule step a c generalizing b d with
    | case1 a c a' c' hs =>
      obtain ⟨⟨hgo, hQ⟩, hq⟩ := (h a b).agree c d ht hp (by rwa [hs])
      rw [hs] at hgo hQ hq
      rcases hs' : step' b d with ⟨⟨go, b'⟩, d'⟩
      rw [hs'] at hgo hQ hq
      obtain rfl : false = go := hgo
      have hrun : repeatRule step' b d = (b', d') := by rw [repeatRule, hs']
      rw [hrun]
      exact ⟨hQ, hq⟩
    | case2 a c a' c' hs hlt ih =>
      obtain ⟨⟨hgo, hI⟩, hq⟩ := (h a b).agree c d ht hp
        (by rw [hs]; exact repeatRule_keeping (fun a => (h a b).keeping) a' c' hn)
      rw [hs] at hgo hI hq
      rcases hs' : step' b d with ⟨⟨go, b'⟩, d'⟩
      rw [hs'] at hgo hI hq
      obtain rfl : true = go := hgo
      obtain ⟨n, hc, hd⟩ := ht.length
      obtain ⟨n', hc', hd'⟩ := hq.length
      have hrun : repeatRule step' b d = repeatRule step' b' d' := by
        rw [repeatRule, hs']
        exact if_pos (by simp only at hc' hd'; omega)
      rw [hrun]
      exact ih b' d' hq hI hn
    | case3 a c a' c' hs hlt => exact absurd (demand_met hn).1 Bool.false_ne_true

/-- So do rounds that go on with the same on both sides. -/
theorem repeatRule_same {step : σ → Rule (Bool × σ)} (h : ∀ a, Mirrors T p p Anywhere (step a) (step a) Same) (a : σ) :
    Mirrors T p p P (repeatRule step a) (repeatRule step a) Same := by
  refine (repeatRule_mirrors (I := fun a b _ => a = b) (Q := Same) (fun a b => ?_) a a).of_imp fun _ _ => rfl
  have hstep : a = b → Mirrors T p p Anywhere (step a) (step b) Same := fun hab => hab ▸ h a
  refine ⟨(h a).keeping, fun c d ht hab hn => ?_⟩
  obtain ⟨hr, hq⟩ := (hstep hab).agree c d ht trivial hn
  refine ⟨⟨congrArg Prod.fst hr, ?_⟩, hq⟩
  split
  · exact congrArg Prod.snd hr
  · exact congrArg Prod.snd hr

/-! ## Reports -/

/-- A report changes nothing but the reports. -/
theorem addReport_fields (c : Cursor) (place : Nat) (report : Diagnostic) :
    (c.addReport place report).ahead = c.ahead ∧ (c.addReport place report).parts = c.parts ∧
      (c.addReport place report).modulePrefix = c.modulePrefix ∧ (c.addReport place report).defects = c.defects := by
  unfold Cursor.addReport
  split <;> exact ⟨rfl, rfl, rfl, rfl⟩

/-- Corresponding reports are made or dropped on both sides. -/
theorem Rows.Twin.addReport {c d : Cursor} {place place' : Nat} {report report' : Diagnostic} (ht : T.Twin p c.toReading d.toReading)
    (h : K.whole → K.Spot place place' ∧ K.Reported report report') :
    T.Twin p (c.addReport place report).toReading (d.addReport place' report').toReading := by
  obtain ⟨hc1, hc2, hc3, -⟩ := addReport_fields c place report
  obtain ⟨hd1, hd2, hd3, -⟩ := addReport_fields d place' report'
  have htail : (c.addReport place report).tail = c.tail := congrArg Outlook.tail (addReport_frame c place report).1
  refine ⟨by rw [hc1, hd1]; exact ht.ahead, by rw [hc2, hd2]; exact ht.parts, by rw [hc3, hd3]; exact ht.modulePrefix,
    by rw [hc3, htail]; exact ht.alone, fun hw => ?_⟩
  have hf := ht.followed hw
  obtain ⟨hspot, hreport⟩ := h hw
  have hlimit : ∀ (c : Cursor) place report, (c.addReport place report).limit = c.limit := by
    intro c place report
    unfold Cursor.addReport
    split <;> rfl
  have hreached : ∀ (c : Cursor) place report, (c.addReport place report).reached = c.reached := fun c place report =>
    congrArg Outlook.reached (addReport_frame c place report).1
  have htail' : (d.addReport place' report').tail = d.tail := congrArg Outlook.tail (addReport_frame d place' report').1
  have hboth : K.reports → List.Forall₂ K.Reported (c.addReport place report).reports (d.addReport place' report').reports ∧
      Option.Rel K.Spot (c.addReport place report).lastReport (d.addReport place' report').lastReport := by
    intro hr
    have hlast := hf.lastReport hr
    have hsame : c.lastReport = some place ↔ d.lastReport = some place' := by
      generalize c.lastReport = last, d.lastReport = last' at hlast
      cases hlast with
      | none => simp
      | some hs => simpa using hs.inj hw hspot
    unfold Cursor.addReport
    by_cases hc : c.lastReport = some place
    · rw [if_pos hc, if_pos (hsame.mp hc)]
      exact ⟨hf.reports hr, hlast⟩
    · rw [if_neg hc, if_neg fun hd => hc (hsame.mpr hd)]
      exact ⟨List.rel_append (hf.reports hr) (.cons hreport .nil), .some hspot⟩
  exact ⟨by rw [htail, htail']; exact hf.tail, (hlimit c place report).trans hf.limit₁, (hlimit d place' report').trans hf.limit₂,
    fun hr => (hboth hr).1, fun hr => (hboth hr).2, by rw [hreached, hreached]; exact hf.reached⟩

/-- Making corresponding reports. -/
theorem addReport_mirrors {r r' : Rule Unit} (build : Cursor → Builder) (place place' : Cursor → Nat)
    (report report' : Cursor → Diagnostic) (hr : ∀ c, r c = ((), Cursor.addReport (place c) (report c) { c with builder := build c }))
    (hr' : ∀ c, r' c = ((), Cursor.addReport (place' c) (report' c) { c with builder := build c }))
    (h : ∀ c d : Cursor, T.Twin p c.toReading d.toReading → P c.outlook → K.whole →
      K.Spot (place c) (place' d) ∧ K.Reported (report c) (report' d)) : Mirrors T p p P r r' fun _ _ => P where
  keeping c hn := by
    rw [hr] at hn
    exact (addReport_fields { c with builder := build c } _ _).2.2.2 ▸ hn
  agree c d ht hp _ := by
    rw [hr, hr', (addReport_frame { c with builder := build c } _ _).1]
    exact ⟨hp, Rows.Twin.addReport (c := { c with builder := build c }) (d := { d with builder := build d }) ht (h c d ht hp)⟩

/-- Both report the same at the next lexeme. -/
theorem reportNext_mirrors {kind : DiagnosticKind} {detail : Option String} (hk : kind.isStructural = false) :
    Mirrors T p p P (reportNext kind detail) (reportNext kind detail) fun _ _ => P := by
  refine addReport_mirrors (·.look.builder) (fun c => c.nextSpan.start) (fun c => c.nextSpan.start) (fun c => ⟨kind, c.nextSpan, detail, []⟩)
    (fun c => ⟨kind, c.nextSpan, detail, []⟩) (fun _ => rfl) (fun _ => rfl) fun c d ht _ hw => ?_
  have hnext := ht.nextSpan hw
  refine ⟨⟨_, _, hnext, rfl, rfl⟩, rfl, rfl, ?_, .nil⟩
  rcases hnext with h | ⟨h, h'⟩
  · exact .lexeme hk h
  · rw [h, h']
    exact .atEnd

/-- Both report the same with a text that says more. -/
theorem report_mirrors {kind : DiagnosticKind} {detail : String} (hk : kind.isStructural = false) :
    Mirrors T p p P (report kind detail) (report kind detail) fun _ _ => P :=
  reportNext_mirrors hk

/-- Ranges of corresponding lexemes start and end with corresponding lexemes. -/
theorem Pairing.stretch_of_same {s t : Span} (h : K.same s t) : K.Stretch s t := ⟨⟨s, t, h, rfl, rfl⟩, s, t, h, rfl, rfl⟩

/-- A report at a range that is known. -/
theorem reportAt_mirrors {kind : DiagnosticKind} {span span' : Span} {detail : Option String} {related related' : List Related}
    (h : ∀ o, P o → K.whole →
      K.Spot span.start span'.start ∧ K.Reported ⟨kind, span, detail, related⟩ ⟨kind, span', detail, related'⟩) :
    Mirrors T p p P (reportAt kind span detail related) (reportAt kind span' detail related') fun _ _ => P :=
  addReport_mirrors (·.builder) (fun _ => span.start) (fun _ => span'.start) _ _ (fun _ => rfl) (fun _ => rfl) fun c _ _ hp hw => h c.outlook hp hw

/-- A report at the range of a lexeme that was seen. -/
theorem reportLexeme_mirrors {kind : DiagnosticKind} {span span' : Span} {detail : Option String} (hk : kind.isStructural = false)
    (hs : ∀ o, P o → K.same span span') :
    Mirrors T p p P (reportAt kind span detail []) (reportAt kind span' detail []) fun _ _ => P :=
  reportAt_mirrors fun o hp _ => ⟨⟨span, span', .inl (hs o hp), rfl, rfl⟩, rfl, rfl, .lexeme hk (hs o hp), .nil⟩

/-- No defect is forgotten where something is reported as unclosed. -/
theorem reportUnclosed_keeping (kind : DiagnosticKind) (note : String) (opening : Span) : Keeping (reportUnclosed kind note opening) := by
  intro c hn
  have hn : ((c.look.demand (opening.start ≤ c.nextSpan.stop) .reversedSpan).addReport c.nextSpan.start
    ⟨kind, ⟨opening.start, c.nextSpan.stop⟩, none, [⟨note, opening⟩]⟩).defects = [] := hn
  rw [(addReport_fields _ _ _).2.2.2] at hn
  exact (demand_met hn).2

/-- A report, at the end, of a bracket that was seen. -/
theorem reportUnclosed_mirrors {kind : DiagnosticKind} (note : String) {opening opening' : Span} (hk : kind.isStructural = true)
    (hP : ∀ o, P o → o.ahead = [] ∧ K.same opening opening') :
    Mirrors T p p P (reportUnclosed kind note opening) (reportUnclosed kind note opening') fun _ _ => P where
  keeping := reportUnclosed_keeping kind note opening
  agree c d ht hp _ := by
    obtain ⟨hc, hs⟩ := hP _ hp
    have hc : c.ahead = [] := hc
    obtain ⟨hw, hd⟩ : K.whole ∧ d.ahead = [] := by
      rcases ht.next with ⟨hw, -, hd⟩ | ⟨l, ls, k, ks, hc', -⟩
      · exact ⟨hw, hd⟩
      · rw [hc] at hc'
        cases hc'
    have hf := ht.followed hw
    have hspan : c.look.nextSpan = .empty K.limit₁ := by rw [Cursor.nextSpan, show c.look.ahead = [] from hc, ← hf.limit₁]; rfl
    have hspan' : d.look.nextSpan = .empty K.limit₂ := by rw [Cursor.nextSpan, show d.look.ahead = [] from hd, ← hf.limit₂]; rfl
    have hdemand : ∀ (c : Cursor) b, (c.demand b .reversedSpan).toReading = c.toReading := fun c b => (demand_keeps b .reversedSpan c).1
    have hmade : T.Twin p (c.look.demand (opening.start ≤ c.nextSpan.stop) .reversedSpan).toReading
        (d.look.demand (opening'.start ≤ d.nextSpan.stop) .reversedSpan).toReading := by
      rw [hdemand, hdemand]
      exact ht
    have hreport : K.Reported ⟨kind, ⟨opening.start, K.limit₁⟩, none, [⟨note, opening⟩]⟩
        ⟨kind, ⟨opening'.start, K.limit₂⟩, none, [⟨note, opening'⟩]⟩ :=
      ⟨rfl, rfl, .unclosed hk hs, .cons ⟨rfl, Pairing.stretch_of_same hs⟩ .nil⟩
    have hspot : K.Spot c.look.nextSpan.start d.look.nextSpan.start := by
      rw [hspan, hspan']
      exact ⟨_, _, .inr ⟨rfl, rfl⟩, rfl, rfl⟩
    refine ⟨?_, hmade.addReport fun _ => ⟨hspot, by rw [hspan, hspan']; exact hreport⟩⟩
    have ho : (reportUnclosed kind note opening c).2.outlook = c.outlook :=
      (addReport_frame _ _ _).1.trans (congrArg Reading.outlook (hdemand c.look _))
    exact ho ▸ hp

end QueryStubs.Grammar
