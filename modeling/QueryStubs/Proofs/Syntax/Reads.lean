import QueryStubs.Proofs.Syntax.Form
import QueryStubs.Proofs.Reader.Terms

/-!
# Rules that read forms

`Reads S P r good f F` says that the rule `r` reads the form `f`. From a cursor that is clean, where nothing was reported at the next
lexeme and no error anywhere, `r` either reports an error or gives a good result and has built trees of the form `f`; and where trees
of `f` can be built up to a place where `F` holds of the next token, `r` builds these and reports no error. `P` is what the rule may
count on at the start, and if `S` holds and it reports no error, it reports nothing at all and leaves the prefix of the module as it is.

`F` is there because rules take as much as they can: a name must not be followed by a colon if it is to be a whole name.
`Form.Leads` says what comes first in a form, which is what this comes down to when rules follow one another.
-/

namespace QueryStubs.Grammar

open QueryStubs

/-! ## Clean cursors -/

namespace Reading

/-- Whether an error was reported. -/
def HasError (s : Reading) : Prop := ∃ r ∈ s.reports, r.isError = true

/-- The place of the next lexeme, or of the end of the source. -/
def nextPlace (s : Reading) : Nat :=
  match s.ahead with
  | [] => s.limit
  | l :: _ => l.span.start

/-- The lexemes ahead are in order and start outside every literal, no error was reported, and the last report was made before the
next lexeme, so that the next report is not dropped. -/
structure Clean (s : Reading) : Prop where
  ordered : s.Ordered
  aligned : Aligned s.ahead
  faultless : ¬ s.HasError
  last : ∀ p, s.lastReport = some p → p < s.nextPlace

end Reading

/-- What a rule has done that read a form. -/
structure Grows (S : Prop) (f : Form) (s s' : Reading) (ts : List Tree) : Prop where
  clean : s'.Clean
  builds : f.Builds s.outlook ts s'.outlook
  parts : s'.parts = s.parts ++ ts
  silent : S → s'.reports = s.reports ∧ s'.lastReport = s.lastReport ∧ s'.modulePrefix = s.modulePrefix

/-- The token that comes next. -/
def Outlook.head (o : Outlook) : Option Token := o.ahead.head?.map (·.token)

/-- One rule after another, run from a cursor. -/
theorem bind_run (x : Rule α) (k : α → Rule β) (c : Cursor) : (x >>= k) c = k (x c).1 (x c).2 := rfl

/-- A rule that leaves the reading as it is, and `A` tells what it found. -/
def Keeps (x : Rule α) (A : α → Outlook → Prop) : Prop := ∀ c, (x c).2.toReading = c.toReading ∧ A (x c).1 c.outlook

/-- Looking leaves the reading as it is. -/
theorem Looks.keeps {n : Nat} {x : Rule α} {A : α → Outlook → Prop} (h : Looks n x A) : Keeps x A :=
  fun c => ⟨(h c).1, (h c).2.1⟩

/-- So does a demand. -/
theorem demand_keeps (condition : Bool) (defect : Defect) : Keeps (demand condition defect) fun _ _ => True := by
  intro c
  have he : demand condition defect c = ((), c.demand condition defect) := rfl
  rw [he, Cursor.demand]
  split <;> exact ⟨rfl, trivial⟩

/-- An error that was reported stays reported. -/
def Stays (r : Rule α) : Prop := ∀ c : Cursor, c.HasError → (r c).2.HasError

/-- An error stays reported through one rule after another. -/
theorem Stays.bind {x : Rule α} {k : α → Rule β} (hx : Stays x) (hk : ∀ a, Stays (k a)) : Stays (x >>= k) :=
  fun c h => hk _ _ (hx c h)

/-- It stays so where nothing is changed. -/
theorem Keeps.stays {x : Rule α} {A : α → Outlook → Prop} (h : Keeps x A) : Stays x :=
  fun c he => (h c).1 ▸ he

/-- It stays so where a lexeme is taken. -/
theorem advance_stays {r : Rule Unit} {record : Token → Token} (hr : ∀ c, r c = ((), c.advance record)) : Stays r := by
  intro c h
  rw [hr]
  unfold Cursor.advance
  split <;> exact h

/-- It stays so where a lexeme is taken as it is. -/
theorem take_stays : Stays take := advance_stays fun _ => rfl

/-- The rule reads the form. -/
structure Reads (S : Prop) (P : Outlook → Prop) (r : Rule α) (good : α → Bool) (f : Form) (F : Option Token → Prop) :
    Prop where
  stays : Stays r
  sound : ∀ c : Cursor, c.Clean → P c.outlook →
    (r c).2.HasError ∨ good (r c).1 = true ∧ ∃ ts, Grows S f c.toReading (r c).2.toReading ts
  complete : ∀ (c : Cursor) ts o, c.Clean → P c.outlook → f.Builds c.outlook ts o → F o.head →
    ¬ (r c).2.HasError ∧ (r c).2.outlook = o ∧ (r c).2.parts = c.parts ++ ts

/-- Wherever a form can be built up to a place where `G` holds of the next token, `F` holds of the token it starts with. -/
def Form.Leads (f : Form) (G F : Option Token → Prop) : Prop := ∀ o ts o', f.Builds o ts o' → G o'.head → F o.head

/-- Placing trivia does not change the next token. -/
@[simp] theorem Outlook.head_placed (o : Outlook) : o.placed.head = o.head := by
  obtain ⟨_ | ⟨l, ls⟩, tail, reached⟩ := o <;> rfl

namespace Form.Leads

variable {f g : Form} {F G H : Option Token → Prop}

/-- Of the token that comes first nothing need be said. -/
theorem any (f : Form) : f.Leads G fun _ => True := fun _ _ _ _ _ => trivial

/-- Less may be said of it. -/
theorem imp (h : f.Leads G H) (hF : ∀ t, H t → F t) : f.Leads G F := fun _ _ _ hb hg => hF _ (h _ _ _ hb hg)

/-- In front of nothing stands what follows. -/
theorem nothing (h : ∀ t, G t → F t) : Form.nothing.Leads G F := by
  intro o ts o' hb hg
  cases hb
  exact h _ hg

/-- A lexeme of some kinds stands first itself. -/
theorem one {p : TokenKind → Bool} (h : ∀ t : Token, p t.kind = true → F (some t)) : (Form.one p).Leads G F := by
  intro o ts o' hb _
  cases hb with
  | one ls tail reached hp => exact h _ hp

/-- A keyword stands first itself, as a name. -/
theorem keyword {words : List String} (h : ∀ t : Token, t.kind = .name → t.text ∈ words → F (some t)) :
    (Form.keyword words).Leads G F := by
  intro o ts o' hb _
  cases hb with
  | keyword ls tail reached hn hw => exact h _ hn hw

/-- A name with a prefix starts with a name. -/
theorem prefixed (h : ∀ t : Token, t.kind = .name → F (some t)) : Form.prefixed.Leads G F := by
  intro o ts o' hb _
  cases hb with
  | prefixed ls tail reached hn => exact h _ hn

/-- What is said of the first form of two is said of both, if the second one starts as the first counts on. -/
theorem seq (hf : f.Leads H F) (hg : g.Leads G H) : (Form.seq f g).Leads G F := by
  intro o ts o' hb h
  cases hb with
  | seq hx hy => exact hf _ _ _ hx (hg _ _ _ hy h)

/-- What is said of both forms is said of a choice of them. -/
theorem either (hf : f.Leads G F) (hg : g.Leads G F) : (Form.either f g).Leads G F := by
  intro o ts o' hb h
  cases hb with
  | first hx => exact hf _ _ _ hx h
  | second hy => exact hg _ _ _ hy h

/-- A form that may stand any number of times starts as it does itself or as what follows. -/
theorem many (hf : f.Leads (fun _ => True) F) (h : ∀ t, G t → F t) : (Form.many f).Leads G F := by
  intro o ts o' hb hg
  cases hb with
  | manyNil => exact h _ hg
  | manyCons hx _ => exact hf _ _ _ hx trivial

/-- A node starts with what is inside it. -/
theorem node {kind : NodeKind} (hf : f.Leads G F) : (Form.node kind f).Leads G F := by
  intro o ts o' hb h
  cases hb with
  | node hx => exact o.head_placed ▸ hf _ _ _ hx h

end Form.Leads

namespace Reads

variable {S : Prop} {P : Outlook → Prop} {f g : Form} {F G H : Option Token → Prop} {good : α → Bool} {r : Rule α}

/-- More may be assumed of the start and of the end. -/
theorem imp {P' : Outlook → Prop} {F' : Option Token → Prop} (h : Reads S P r good f F) (hP : ∀ o, P' o → P o)
    (hF : ∀ t, F' t → F t) : Reads S P' r good f F' where
  stays := h.stays
  sound c hc hp := h.sound c hc (hP _ hp)
  complete c ts o hc hp hb ho := h.complete c ts o hc (hP _ hp) hb (hF _ ho)

/-- More may be assumed of the start. -/
theorem of_imp {P' : Outlook → Prop} (h : Reads S P r good f F) (hP : ∀ o, P' o → P o) : Reads S P' r good f F :=
  h.imp hP fun _ hF => hF

/-- Where a rule is never used it reads anything. -/
theorem unused (hs : Stays r) (h : ∀ o, ¬ P o) : Reads S P r good f F where
  stays := hs
  sound _ _ hp := absurd hp (h _)
  complete _ _ _ _ hp := absurd hp (h _)

/-- Silence may be promised in fewer cases. -/
theorem quieter {S' : Prop} (h : Reads S P r good f F) (hS : S' → S) : Reads S' P r good f F where
  stays := h.stays
  sound c hc hp := by
    rcases h.sound c hc hp with he | ⟨hg, ts, hd⟩
    · exact .inl he
    · exact .inr ⟨hg, ts, hd.clean, hd.builds, hd.parts, fun hs => hd.silent (hS hs)⟩
  complete := h.complete

/-- A rule may do the same as another wherever it is used. -/
theorem of_agree {r' : Rule α} (h : Reads S P r' good f F) (hs : Stays r) (he : ∀ c : Cursor, P c.outlook → r c = r' c) :
    Reads S P r good f F where
  stays := hs
  sound c hc hp := he c hp ▸ h.sound c hc hp
  complete c ts o hc hp := he c hp ▸ h.complete c ts o hc hp

/-- What a rule reads whatever is left it reads. -/
theorem of_length (h : ∀ n, Reads S (fun o => P o ∧ o.ahead.length = n) r good f F) : Reads S P r good f F where
  stays := (h 0).stays
  sound c hc hp := (h _).sound c hc ⟨hp, rfl⟩
  complete c ts o hc hp := (h _).complete c ts o hc ⟨hp, rfl⟩

/-- A rule that only answers reads nothing. -/
theorem pure {a : α} (h : good a = true) : Reads S P (pure a : Rule α) good .nothing F where
  stays _ he := he
  sound c hc _ := .inr ⟨h, [], hc, .nothing _, (List.append_nil _).symm, fun _ => ⟨rfl, rfl, rfl⟩⟩
  complete c ts o hc _ hb _ := by
    cases hb
    exact ⟨hc.faultless, rfl, (List.append_nil _).symm⟩

/-- One rule after another. A result that is not good ends the reading. -/
theorem bind {Q : Outlook → Prop} {x : Rule α} {k : α → Rule β} {good' : β → Bool} (hx : Reads S P x good f F)
    (hQ : ∀ o ts o', P o → f.Builds o ts o' → Q o') (hk : ∀ a, good a = true → Reads S Q (k a) good' g G)
    (hbad : ∀ a, good a = false → Stays (k a)) (hlead : g.Leads G F) : Reads S P (x >>= k) good' (.seq f g) G where
  stays := hx.stays.bind fun a => by
    cases hg : good a with
    | true => exact (hk a hg).stays
    | false => exact hbad a hg
  sound c hc hp := by
    rw [bind_run]
    rcases hx.sound c hc hp with hd | ⟨hg, ts, hd⟩
    · refine .inl ?_
      cases hg : good (x c).1 with
      | true => exact (hk _ hg).stays _ hd
      | false => exact hbad _ hg _ hd
    rcases (hk _ hg).sound _ hd.clean (hQ _ _ _ hp hd.builds) with he | ⟨hg', us, he⟩
    · exact .inl he
    refine .inr ⟨hg', ts ++ us, he.clean, .seq hd.builds he.builds, ?_, fun hS => ?_⟩
    · rw [he.parts, hd.parts, List.append_assoc]
    · obtain ⟨hreports, hlast, hprefix⟩ := hd.silent hS
      obtain ⟨hreports', hlast', hprefix'⟩ := he.silent hS
      exact ⟨hreports'.trans hreports, hlast'.trans hlast, hprefix'.trans hprefix⟩
  complete c vs o hc hp hb ho := by
    rw [bind_run]
    cases hb with
    | @seq _ _ _ o1 _ ts us hf hgb =>
      obtain ⟨hne, hod, hpd⟩ := hx.complete c _ _ hc hp hf (hlead _ _ _ hgb ho)
      obtain ⟨hg, ts', hd⟩ := (hx.sound c hc hp).resolve_left hne
      obtain ⟨hne', hoe, hpe⟩ := (hk _ hg).complete _ us o hd.clean (hQ _ _ _ hp hd.builds) (hod ▸ hgb) ho
      exact ⟨hne', hoe, by rw [hpe, hpd, List.append_assoc]⟩

/-- Looking first changes nothing, and what was found may be counted on. -/
theorem look {x : Rule β} {A : β → Outlook → Prop} {k : β → Rule α} (hx : Keeps x A)
    (hk : ∀ a, Reads S (fun o => P o ∧ A a o) (k a) good f F) : Reads S P (x >>= k) good f F := by
  have hkeeps : ∀ c, (x c).2.outlook = c.outlook := fun c => congrArg Reading.outlook (hx c).1
  refine ⟨hx.stays.bind fun a => (hk a).stays, fun c hc hp => ?_, fun c ts o hc hp hb ho => ?_⟩
  · have h := (hk (x c).1).sound (x c).2 ((hx c).1 ▸ hc) ⟨hkeeps c ▸ hp, hkeeps c ▸ (hx c).2⟩
    rw [(hx c).1] at h
    exact h
  · have h := (hk (x c).1).complete (x c).2 ts o ((hx c).1 ▸ hc) ⟨hkeeps c ▸ hp, hkeeps c ▸ (hx c).2⟩ (hkeeps c ▸ hb) ho
    rw [(hx c).1] at h
    exact h

/-- A choice reads what both branches read. -/
theorem ite {b : Bool} {x y : Rule α} (hx : b = true → Reads S P x good f F) (hy : b = false → Reads S P y good f F) :
    Reads S P (if b = true then x else y) good f F := by
  cases b with
  | true => exact hx rfl
  | false => exact hy rfl

/-- A form may be described in another way as far as it is used. -/
theorem conv (h : Reads S P r good f F) (hfg : ∀ o ts o', P o → f.Builds o ts o' → g.Builds o ts o')
    (hgf : ∀ o ts o', P o → g.Builds o ts o' → F o'.head → f.Builds o ts o') : Reads S P r good g F where
  stays := h.stays
  sound c hc hp := by
    rcases h.sound c hc hp with he | ⟨hg, ts, hd⟩
    · exact .inl he
    · exact .inr ⟨hg, ts, hd.clean, hfg _ _ _ hp hd.builds, hd.parts, hd.silent⟩
  complete c ts o hc hp hb ho := h.complete c ts o hc hp (hgf _ _ _ hp hb ho) ho

/-- A form may be described in another way. -/
theorem of_iff (h : Reads S P r good f F) (hfg : ∀ o ts o', f.Builds o ts o' ↔ g.Builds o ts o') : Reads S P r good g F :=
  h.conv (fun _ _ _ _ hb => (hfg _ _ _).mp hb) fun _ _ _ _ hb _ => (hfg _ _ _).mpr hb

/-- Where the second of two forms cannot be built, reading the first is reading either. -/
theorem first (h : Reads S P r good f F) (hg : ∀ o ts o', P o → g.Builds o ts o' → ¬ F o'.head) :
    Reads S P r good (.either f g) F := by
  refine h.conv (fun o ts o' _ hb => .first hb) fun o ts o' hp hb ho => ?_
  cases hb with
  | first hb => exact hb
  | second hb => exact absurd ho (hg _ _ _ hp hb)

/-- Where the first of two forms cannot be built, reading the second is reading either. -/
theorem second (h : Reads S P r good g F) (hf : ∀ o ts o', P o → f.Builds o ts o' → ¬ F o'.head) :
    Reads S P r good (.either f g) F := by
  refine h.conv (fun o ts o' _ hb => .second hb) fun o ts o' hp hb ho => ?_
  cases hb with
  | first hb => exact absurd ho (hf _ _ _ hp hb)
  | second hb => exact hb

end Reads

/-! ## Rules that report an error -/

/-- The rule reports an error wherever nothing was reported at the next lexeme before. -/
structure Fails (P : Outlook → Prop) (r : Rule α) : Prop where
  stays : Stays r
  error : ∀ c : Cursor, c.Clean → P c.outlook → (r c).2.HasError

/-- What was reported stays reported. -/
theorem addReport_hasError {c : Cursor} (place : Nat) (report : Diagnostic) (h : c.HasError) :
    (c.addReport place report).HasError := by
  unfold Cursor.addReport
  split
  · exact h
  · obtain ⟨r, hr, he⟩ := h
    exact ⟨r, List.mem_append_left _ hr, he⟩

/-- The place of the next lexeme is where its range starts. -/
theorem nextSpan_start (c : Cursor) : c.nextSpan.start = c.nextPlace := by
  unfold Cursor.nextSpan Reading.nextPlace
  cases c.ahead <;> rfl

/-- An error at a place where no report was made last is not dropped. -/
theorem addReport_error {c : Cursor} {place : Nat} {report : Diagnostic} (hl : c.lastReport ≠ some place)
    (he : report.isError = true) : (c.addReport place report).HasError := by
  rw [Cursor.addReport, if_neg hl]
  exact ⟨report, List.mem_append_right _ (List.mem_singleton.mpr rfl), he⟩

/-- From a clean cursor an error at the next lexeme is not dropped. -/
theorem Reading.Clean.addReport {c : Cursor} (hc : c.Clean) {report : Diagnostic} (he : report.isError = true) :
    (c.addReport c.nextSpan.start report).HasError := by
  refine addReport_error (fun h => ?_) he
  have := hc.last _ h
  rw [nextSpan_start] at this
  exact Nat.lt_irrefl _ this

namespace Fails

variable {P : Outlook → Prop}

/-- A report of an error at the next lexeme is a failure. -/
theorem reportNext {kind : DiagnosticKind} (detail : Option String) (h : kind.severity = .error) :
    Fails P (reportNext kind detail) :=
  ⟨fun c => addReport_hasError (c := c.look) _ _, fun c hc _ => Reading.Clean.addReport (c := c.look) hc (decide_eq_true h)⟩

/-- A report of something that is not closed is a failure. -/
theorem reportUnclosed {kind : DiagnosticKind} (note : String) (opening : Span) (h : kind.severity = .error) :
    Fails P (reportUnclosed kind note opening) := by
  have hx : ∀ c : Cursor, ∃ (d : Cursor) (span : Span), d.toReading = c.toReading ∧
      (Grammar.reportUnclosed kind note opening c).2 = d.addReport d.nextSpan.start ⟨kind, span, none, [⟨note, opening⟩]⟩ := by
    intro c
    have hd : (c.look.demand (opening.start ≤ c.nextSpan.stop) .reversedSpan).toReading = c.toReading := by
      rw [Cursor.demand]
      split <;> rfl
    refine ⟨c.look.demand (opening.start ≤ c.nextSpan.stop) .reversedSpan, ⟨opening.start, c.nextSpan.stop⟩, hd, ?_⟩
    rw [nextSpan_start, hd, ← nextSpan_start]
    rfl
  refine ⟨fun c h => ?_, fun c hc _ => ?_⟩
  · obtain ⟨d, span, hr, he⟩ := hx c
    exact he ▸ addReport_hasError _ _ (hr ▸ h)
  · obtain ⟨d, span, hr, he⟩ := hx c
    have hd : d.Clean := hr ▸ hc
    exact he ▸ hd.addReport (decide_eq_true h)

/-- What follows a report cannot take it back. -/
theorem bind {x : Rule α} {k : α → Rule β} (hx : Fails P x) (hk : ∀ a, Stays (k a)) : Fails P (x >>= k) :=
  ⟨hx.stays.bind hk, fun c hc hp => hk _ _ (hx.error c hc hp)⟩

/-- Looking first changes nothing. -/
theorem look {x : Rule β} {A : β → Outlook → Prop} {k : β → Rule α} (hx : Keeps x A)
    (hk : ∀ a, Fails (fun o => P o ∧ A a o) (k a)) : Fails P (x >>= k) := by
  refine ⟨hx.stays.bind fun a => (hk a).stays, fun c hc hp => (hk _).error _ ((hx c).1 ▸ hc) ?_⟩
  have ho : (x c).2.outlook = c.outlook := congrArg Reading.outlook (hx c).1
  exact ⟨ho ▸ hp, ho ▸ (hx c).2⟩

/-- A choice fails if both branches do. -/
theorem ite {b : Bool} {x y : Rule α} (hx : Fails P x) (hy : Fails P y) : Fails P (if b = true then x else y) := by
  cases b with
  | true => exact hx
  | false => exact hy

/-- A report and a result. -/
theorem thenPure {x : Rule α} (hx : Fails P x) (b : β) : Fails P (x >>= fun _ => Pure.pure b) :=
  hx.bind fun _ _ h => h

/-- An error that is reported behind a form. -/
theorem behind {S : Prop} {Q : Outlook → Prop} {x : Rule α} {k : α → Rule β} {good : α → Bool} {f : Form} {F : Option Token → Prop}
    (hx : Reads S P x good f F) (hQ : ∀ o ts o', P o → f.Builds o ts o' → Q o') (hk : ∀ a, Fails Q (k a)) : Fails P (x >>= k) := by
  refine ⟨hx.stays.bind fun a => (hk a).stays, fun c hc hp => ?_⟩
  rcases hx.sound c hc hp with he | ⟨-, ts, hd⟩
  · exact (hk _).stays _ he
  · exact (hk _).error _ hd.clean (hQ _ _ _ hp hd.builds)

/-- A rule that reports an error reads a form that cannot be built. -/
theorem reads {S : Prop} {r : Rule α} {good : α → Bool} {f : Form} {F : Option Token → Prop} (h : Fails P r)
    (hf : ∀ o ts o', P o → f.Builds o ts o' → ¬ F o'.head) : Reads S P r good f F :=
  ⟨h.stays, fun c hc hp => .inl (h.error c hc hp), fun _ _ _ _ hp hb ho => absurd ho (hf _ _ _ hp hb)⟩

end Fails

namespace Reads

variable {S : Prop} {P : Outlook → Prop} {f g : Form} {F G H : Option Token → Prop} {good : α → Bool} {x y : Rule α}
  {t : Rule β} {q : β → Bool}

/-- The next token decides between two forms. -/
theorem either (ht : Keeps t fun b o => q b = true ↔ H o.head) (hx : Reads S (fun o => P o ∧ H o.head) x good f F)
    (hf : f.Leads F H) (hy : Reads S (fun o => P o ∧ ¬ H o.head) y good g F) (hg : g.Leads F (¬ H ·)) :
    Reads S P (t >>= fun b => if q b = true then x else y) good (.either f g) F := by
  refine look ht fun b => ite (fun hb => ?_) fun hb => ?_
  · exact (hx.first fun o ts o' hp hb' ho => hg _ _ _ hb' ho hp.2).of_imp fun o h => ⟨h.1, h.2.mp hb⟩
  · refine (hy.second fun o ts o' hp hb' ho => hp.2 (hf _ _ _ hb' ho)).of_imp fun o h => ⟨h.1, fun hH => ?_⟩
    simp [h.2.mpr hH] at hb

/-- The next token decides between a form and an error. -/
theorem when (ht : Keeps t fun b o => q b = true ↔ H o.head) (hx : Reads S (fun o => P o ∧ H o.head) x good f F)
    (hf : f.Leads F H) (hy : Fails (fun o => P o ∧ ¬ H o.head) y) :
    Reads S P (t >>= fun b => if q b = true then x else y) good f F := by
  refine look ht fun b => ite (fun hb => hx.of_imp fun o h => ⟨h.1, h.2.mp hb⟩) fun hb => ?_
  refine (hy.reads fun o ts o' hp hb' ho => hp.2 (hf _ _ _ hb' ho)).of_imp fun o h => ⟨h.1, fun hH => ?_⟩
  simp [h.2.mpr hH] at hb

end Reads

end QueryStubs.Grammar
