import Mathlib.Data.List.Forall2
import QueryStubs.Grammar.Cursor

/-!
# What a reader can do

Every rule of the grammar moves its cursor in a few ways only: it looks ahead, takes a lexeme, places trivia, makes a report, binds
the prefix of the module, or reads the inside of a node. `Run c d` says that a row of such moves leads from `c` to `d`, each of them
allowed where it was made: there was patience left for the look, there was a lexeme to take and only a name was taken as a keyword,
and the ranges of the report do not end before they start. What is done to the tree that is put together is not looked at here.

What all moves keep is proved here once, by induction on the run: no defect is recorded (`Run.frame`), no token is lost, added or
moved (`Run.conserves`), reports are only added (`Run.reports`), and places only grow (`Run.ordered`).
-/

namespace QueryStubs

/-- How a token of the source may stand in the tree: as it is, or, if it is a name, as a keyword. -/
def Token.Recorded (t u : Token) : Prop := u = t ∨ t.kind = .name ∧ u = t.asKeyword

/-- A token stands in the tree with its text. -/
theorem Token.Recorded.text {t u : Token} (h : t.Recorded u) : u.text = t.text := by
  rcases h with rfl | ⟨-, rfl⟩
  · rfl
  · rfl

/-- So do tokens in a row. -/
theorem Token.Recorded.textOf {ts us : List Token} (h : List.Forall₂ Token.Recorded ts us) : textOf us = textOf ts := by
  induction h with
  | nil => rfl
  | cons h _ ih =>
    unfold Token.textOf at ih ⊢
    rw [List.map_cons, List.map_cons, String.join_cons, String.join_cons, h.text, ih]

/-- A range that does not end before it starts. -/
def Span.Forward (s : Span) : Prop := s.start ≤ s.stop

/-- A report of which no range ends before it starts. -/
def Diagnostic.Forward (d : Diagnostic) : Prop := d.span.Forward ∧ ∀ r ∈ d.related, r.span.Forward

namespace Grammar

/-- Lexemes that stand one behind the other from a place on, none of them empty and all within the source. -/
def Ordered (limit : Nat) : Nat → List Lexeme → Prop
  | place, [] => place ≤ limit
  | place, l :: ls => place ≤ l.span.start ∧ l.span.start < l.span.stop ∧ Ordered limit l.span.stop ls

/-- The tokens of the source that have no place in the tree yet. -/
def Reading.left (s : Reading) : List Token := s.ahead.flatMap Lexeme.tokens ++ s.tail

/-- Whether the lexemes ahead stand in order behind what was taken. -/
def Reading.Ordered (s : Reading) : Prop := Grammar.Ordered s.limit s.reached s.ahead

/-- A row of moves from one cursor to another, each of them allowed where it was made. -/
inductive Run : Cursor → Cursor → Prop
  | refl (c : Cursor) : Run c c
  | look {c d : Cursor} : Run c d → 0 < d.patience → Run c { d with patience := d.patience - 1 }
  | take {c d : Cursor} {l : Lexeme} {ls : List Lexeme} {t : Token} :
      Run c d → d.ahead = l :: ls → l.token.Recorded t →
        Run c { d with
          parts := d.parts ++ l.lead.map .leaf ++ [.leaf t]
          ahead := ls
          reached := l.span.stop
          patience := fullPatience }
  | placeTrivia {c d : Cursor} : Run c d → Run c d.placeTrivia
  | report {c d : Cursor} (place : Nat) {report : Diagnostic} :
      Run c d → report.Forward → Run c { d with lastReport := some place, reports := d.reports ++ [report] }
  | bindPrefix {c d : Cursor} (name : Option String) : Run c d → Run c { d with modulePrefix := name }
  | build {c d : Cursor} (builder : Builder) : Run c d → Run c { d with builder }
  | node {c d e : Cursor} (kind : NodeKind) :
      Run c d → Run { d with parts := [] } e → Run c { e with parts := d.parts ++ [.node kind e.parts] }

namespace Run

/-- Runs can be joined. -/
theorem trans {c d e : Cursor} (h : Run c d) (h' : Run d e) : Run c e := by
  induction h' with
  | refl => exact h
  | look _ hp ih => exact (ih h).look hp
  | take _ ha ht ih => exact (ih h).take ha ht
  | placeTrivia _ ih => exact (ih h).placeTrivia
  | report place _ hf ih => exact (ih h).report place hf
  | bindPrefix name _ ih => exact (ih h).bindPrefix name
  | build builder _ ih => exact (ih h).build builder
  | node kind _ hin ih _ => exact (ih h).node kind hin

/-- Moving past a lexeme is a run, as long as only names are recorded as keywords. -/
theorem advance {c : Cursor} {l : Lexeme} {ls : List Lexeme} (record : Token → Token) (ha : c.ahead = l :: ls)
    (ht : l.token.Recorded (record l.token)) : Run c (c.advance record) := by
  unfold Cursor.advance
  rw [ha]
  exact ((Run.refl c).take ha ht).build _

/-- Making a report is a run, also where it is dropped. -/
theorem addReport (c : Cursor) (place : Nat) {report : Diagnostic} (hr : report.Forward) :
    Run c (c.addReport place report) := by
  unfold Cursor.addReport
  split
  · exact .refl c
  · exact (Run.refl c).report place hr

/-- No move records a defect, and the length of the source stays what it is. -/
theorem frame {c d : Cursor} (h : Run c d) : d.defects = c.defects ∧ d.limit = c.limit := by
  induction h with
  | refl => exact ⟨rfl, rfl⟩
  | look _ _ ih | take _ _ _ ih | placeTrivia _ ih | report _ _ _ ih | bindPrefix _ _ ih | build _ _ ih => exact ih
  | node _ _ _ ih ih' => exact ⟨ih'.1.trans ih.1, ih'.2.trans ih.2⟩

/-- There is never more patience than the full one. -/
theorem patience_le {c d : Cursor} (h : Run c d) (hc : c.patience ≤ fullPatience) : d.patience ≤ fullPatience := by
  induction h with
  | refl => exact hc
  | look _ _ ih => exact Nat.le_trans (Nat.sub_le _ 1) (ih hc)
  | take => exact Nat.le_refl fullPatience
  | placeTrivia _ ih | report _ _ _ ih | bindPrefix _ _ ih | build _ _ ih => exact ih hc
  | node _ _ _ ih ih' => exact ih' (ih hc)

/-- Reports are added behind those made before, and none that is added ends before it starts. -/
theorem reports {c d : Cursor} (h : Run c d) : ∃ new, d.reports = c.reports ++ new ∧ ∀ r ∈ new, r.Forward := by
  induction h with
  | refl => exact ⟨[], by simp, by simp⟩
  | look _ _ ih | take _ _ _ ih | placeTrivia _ ih | bindPrefix _ _ ih | build _ _ ih => exact ih
  | @report c d place r _ hr ih =>
    obtain ⟨new, hd, hn⟩ := ih
    refine ⟨new ++ [r], by simp only [hd, List.append_assoc], ?_⟩
    intro x hx
    rcases List.mem_append.mp hx with hx | hx
    · exact hn x hx
    · rw [List.mem_singleton.mp hx]
      exact hr
  | node _ _ _ ih ih' =>
    obtain ⟨new, hd, hn⟩ := ih
    obtain ⟨new', hd', hn'⟩ := ih'
    refine ⟨new ++ new', by simp only [hd', hd, List.append_assoc], ?_⟩
    intro x hx
    rcases List.mem_append.mp hx with hx | hx
    · exact hn x hx
    · exact hn' x hx

/-- Placing trivia puts them at the front of what is left. -/
theorem left_placeTrivia (c : Cursor) : c.left = c.nextTrivia ++ c.placeTrivia.left := by
  unfold Reading.left Cursor.nextTrivia Cursor.placeTrivia
  cases h : c.ahead with
  | nil => simp
  | cons l ls => simp [Lexeme.tokens]

/-- Tokens get their places in the tree in the order of the source: what was left before a run is what the run adds to the open
construct, names taken as keywords apart, and then what is left after it. -/
theorem conserves {c d : Cursor} (h : Run c d) :
    ∃ new taken, d.parts = c.parts ++ new ∧ c.left = taken ++ d.left ∧
      List.Forall₂ Token.Recorded taken (Tree.leavesOf new) := by
  induction h with
  | refl c => exact ⟨[], [], by simp, rfl, by simp [Tree.leavesOf]⟩
  | look _ _ ih | report _ _ _ ih | bindPrefix _ _ ih | build _ _ ih => exact ih
  | @take c d l ls t _ ha ht ih =>
    obtain ⟨new, taken, hp, hl, hr⟩ := ih
    refine ⟨new ++ l.lead.map .leaf ++ [.leaf t], taken ++ l.tokens, by simp only [hp, List.append_assoc], ?_, ?_⟩
    · rw [hl]
      simp [Reading.left, ha]
    · have hlead : List.Forall₂ Token.Recorded l.lead l.lead := List.forall₂_same.mpr fun _ _ => .inl rfl
      have htoken : List.Forall₂ Token.Recorded [l.token] [t] := by simpa using ht
      simpa [Lexeme.tokens, Tree.leavesOf] using List.rel_append hr (List.rel_append hlead htoken)
  | @placeTrivia c d _ ih =>
    obtain ⟨new, taken, hp, hl, hr⟩ := ih
    refine ⟨new ++ d.nextTrivia.map .leaf, taken ++ d.nextTrivia, by simp [Cursor.placeTrivia, hp], ?_, ?_⟩
    · rw [hl, left_placeTrivia d, List.append_assoc]
    · have htrivia : List.Forall₂ Token.Recorded d.nextTrivia d.nextTrivia := List.forall₂_same.mpr fun _ _ => .inl rfl
      simpa using List.rel_append hr htrivia
  | node kind _ _ ih ih' =>
    obtain ⟨new, taken, hp, hl, hr⟩ := ih
    obtain ⟨new', taken', hp', hl', hr'⟩ := ih'
    rw [List.nil_append] at hp'
    refine ⟨new ++ [.node kind new'], taken ++ taken', by simp only [hp, hp', List.append_assoc], ?_, ?_⟩
    · rw [hl, List.append_assoc]
      exact congrArg (taken ++ ·) hl'
    · simpa [Tree.leavesOf] using List.rel_append hr hr'

/-- What is ahead never grows. -/
theorem length_ahead_le {c d : Cursor} (h : Run c d) : d.ahead.length ≤ c.ahead.length := by
  induction h with
  | refl => exact Nat.le_refl _
  | look _ _ ih | report _ _ _ ih | bindPrefix _ _ ih | build _ _ ih => exact ih
  | take _ ha _ ih =>
    rw [ha] at ih
    exact Nat.le_of_succ_le ih
  | @placeTrivia c d _ ih =>
    have hl : d.placeTrivia.ahead.length = d.ahead.length := by
      unfold Cursor.placeTrivia
      cases d.ahead <;> rfl
    exact hl ▸ ih
  | node _ _ _ ih ih' => exact Nat.le_trans ih' ih

/-- Lexemes stay in order, and the place reached does not go back. -/
theorem ordered {c d : Cursor} (h : Run c d) (hc : c.Ordered) : d.Ordered ∧ c.reached ≤ d.reached := by
  induction h with
  | refl => exact ⟨hc, Nat.le_refl _⟩
  | look _ _ ih | report _ _ _ ih | bindPrefix _ _ ih | build _ _ ih => exact ih hc
  | @take c d l ls t _ ha _ ih =>
    obtain ⟨ho, hr⟩ := ih hc
    unfold Reading.Ordered at ho
    rw [ha] at ho
    obtain ⟨h1, h2, h3⟩ := ho
    exact ⟨h3, by simp only; omega⟩
  | @placeTrivia c d _ ih =>
    obtain ⟨ho, hr⟩ := ih hc
    refine ⟨?_, hr⟩
    unfold Reading.Ordered at ho ⊢
    cases ha : d.ahead with
    | nil => simpa [Cursor.placeTrivia, ha] using ho
    | cons l ls => simpa [Cursor.placeTrivia, ha, Grammar.Ordered] using ho
  | node _ _ _ ih ih' =>
    obtain ⟨ho, hr⟩ := ih hc
    obtain ⟨ho', hr'⟩ := ih' ho
    exact ⟨ho', Nat.le_trans hr hr'⟩

/-- The lexeme that came next is still there, its trivia apart, or its end was reached. -/
theorem head {c d : Cursor} (h : Run c d) (hc : c.Ordered) {l : Lexeme} {ls : List Lexeme} (ha : c.ahead = l :: ls) :
    (∃ l', d.ahead = l' :: ls ∧ l'.span = l.span) ∨ l.span.stop ≤ d.reached := by
  induction h generalizing l with
  | refl => exact .inl ⟨l, ha, rfl⟩
  | look _ _ ih | report _ _ _ ih | bindPrefix _ _ ih | build _ _ ih => exact ih hc ha
  | @take c d k ks t hr hk _ ih =>
    rcases ih hc ha with ⟨l', hl, hs⟩ | hle
    · rw [hk] at hl
      cases hl
      exact .inr (by simp only [hs, Nat.le_refl])
    · have ho := (hr.take hk (.inl rfl)).ordered hc
      have hd := (hr.ordered hc).1
      unfold Reading.Ordered at hd
      rw [hk] at hd
      exact .inr (Nat.le_trans hle (Nat.le_trans hd.1 (Nat.le_of_lt hd.2.1)))
  | @placeTrivia c d _ ih =>
    rcases ih hc ha with ⟨l', hl, hs⟩ | hle
    · exact .inl ⟨{ l' with lead := [] }, by simp [Cursor.placeTrivia, hl], hs⟩
    · exact .inr hle
  | node _ hr hin ih ih' =>
    rcases ih hc ha with ⟨l', hl, hs⟩ | hle
    · exact hs ▸ ih' (hr.ordered hc).1 hl
    · exact .inr (Nat.le_trans hle (hin.ordered (hr.ordered hc).1).2)

end Run

end Grammar

end QueryStubs
