import Mathlib
import QueryStubs.Proofs.Text.Recased

/-!
# Words in camel case

A text with anything but separators in it is a row of words with runs of separators in front of the first, between two words and behind the
last (`Worded`, `exists_worded`). In camel case it has the same words, of which only the case is another, and the same separators but for one
of each run between two words (`camelCase_runs`).
-/

namespace QueryStubs.Text

/-- A word is made of characters other than the separator. -/
structure Word (sep : Char) where
  chars : List Char
  ne_nil : chars ≠ []
  not_mem : sep ∉ chars

/-- A word in small letters. -/
def Word.lowered {sep : Char} (v : Word sep) : List Char := v.chars.map Char.toLower

/-- A word with a capital letter. -/
def Word.raised {sep : Char} (v : Word sep) : List Char := v.chars.modifyHead Char.toUpper

/-- A row of words with separators. The number beside a later word is that of the separators in front of it, one less than there are, since
there is always one. -/
structure Worded (sep : Char) where
  lead : Nat
  first : Word sep
  later : List (Nat × Word sep)
  trail : Nat

namespace Worded

variable {sep : Char}

/-- What is written behind the first word. -/
def tail (later : List (Nat × Word sep)) (trail : Nat) : List Char :=
  later.flatMap (fun (n, v) => List.replicate (n + 1) sep ++ v.chars) ++ List.replicate trail sep

/-- The text with its words and its separators. -/
def text (w : Worded sep) : List Char := List.replicate w.lead sep ++ (w.first.chars ++ tail w.later w.trail)

/-- What is written behind the first word in camel case, one separator less in front of each word. -/
def camelTail (later : List (Nat × Word sep)) (trail : Nat) : List Char :=
  later.flatMap (fun (n, v) => List.replicate n sep ++ v.raised) ++ List.replicate trail sep

/-- The text in camel case. -/
def camel (w : Worded sep) : List Char := List.replicate w.lead sep ++ (w.first.lowered ++ camelTail w.later w.trail)

end Worded

variable {sep : Char}

/-! ## Every text is one of words or of separators alone -/

/-- A text is separators alone, or it has words. -/
theorem exists_worded (sep : Char) (cs : List Char) : (∃ n, cs = List.replicate n sep) ∨ ∃ w : Worded sep, w.text = cs := by
  induction cs with
  | nil => exact .inl ⟨0, rfl⟩
  | cons c cs ih =>
    by_cases hc : c = sep
    · subst hc
      rcases ih with ⟨n, rfl⟩ | ⟨w, rfl⟩
      · exact .inl ⟨n + 1, rfl⟩
      · exact .inr ⟨{ w with lead := w.lead + 1 }, rfl⟩
    · have hnone : sep ∉ [c] := fun h => hc (List.mem_singleton.mp h).symm
      rcases ih with ⟨n, rfl⟩ | ⟨⟨lead, first, later, trail⟩, rfl⟩
      · exact .inr ⟨⟨0, ⟨[c], List.cons_ne_nil _ _, hnone⟩, [], n⟩, rfl⟩
      -- the character begins the first word, or it is a word by itself
      · cases lead with
        | zero =>
          have hnone : sep ∉ c :: first.chars := fun h => (List.mem_cons.mp h).elim (hc ∘ Eq.symm) first.not_mem
          exact .inr ⟨⟨0, ⟨c :: first.chars, List.cons_ne_nil _ _, hnone⟩, later, trail⟩, rfl⟩
        | succ n =>
          refine .inr ⟨⟨0, ⟨[c], List.cons_ne_nil _ _, hnone⟩, (n, first) :: later, trail⟩, ?_⟩
          simp [Worded.text, Worded.tail]

/-! ## Segments -/

/-- Segments are what is split off at the separators. -/
theorem segments_eq_splitOn (cs : List Char) : segments sep cs = cs.splitOn sep := by
  induction cs with
  | nil => rfl
  | cons c cs ih =>
    rw [List.splitOn_eq_splitOnP] at ih ⊢
    rw [segments, ih, List.splitOnP_cons_eq_if_modifyHead]
    by_cases hc : c = sep
    · simp [hc]
    · simp only [beq_iff_eq, hc, if_false]
      cases hsplit : cs.splitOnP (· == sep) with
      | nil => exact absurd hsplit (List.splitOnP_ne_nil _ _)
      | cons s ss => rfl

/-- Each separator in front is a segment with nothing in it. -/
theorem segments_replicate_append (n : Nat) (cs : List Char) :
    segments sep (List.replicate n sep ++ cs) = List.replicate n [] ++ segments sep cs := by
  induction n with
  | zero => rfl
  | succ n ih => rw [List.replicate_succ, List.cons_append, segments, if_pos rfl, ih, List.replicate_succ, List.cons_append]

/-- Separators alone have a segment more, which comes behind the last. -/
theorem segments_replicate (n : Nat) : segments sep (List.replicate n sep) = List.replicate (n + 1) [] := by
  have h := @segments_replicate_append sep n []
  rw [List.append_nil] at h
  rw [h, List.replicate_succ']
  rfl

/-- A word joins the first segment of what is behind it. -/
theorem segments_word {cs : List Char} (hcs : sep ∉ cs) {ds s : List Char} {ss : List (List Char)} (h : segments sep ds = s :: ss) :
    segments sep (cs ++ ds) = (cs ++ s) :: ss := by
  induction cs with
  | nil => exact h
  | cons c cs ih =>
    rw [List.mem_cons, not_or] at hcs
    rw [List.cons_append, segments, if_neg (Ne.symm hcs.1), ih hcs.2]
    rfl

/-- The segments behind the first word. -/
def Worded.restSegments (later : List (Nat × Word sep)) (trail : Nat) : List (List Char) :=
  later.flatMap (fun (n, v) => List.replicate n [] ++ [v.chars]) ++ List.replicate trail []

/-- What is written behind a word does not go on in it. -/
theorem Worded.segments_tail (later : List (Nat × Word sep)) (trail : Nat) :
    segments sep (tail later trail) = [] :: restSegments later trail := by
  induction later with
  | nil => exact segments_replicate trail
  | cons l later ih =>
    obtain ⟨n, v⟩ := l
    have hnext : tail ((n, v) :: later) trail = List.replicate (n + 1) sep ++ (v.chars ++ tail later trail) := by simp [tail]
    rw [hnext, segments_replicate_append, segments_word v.not_mem ih, List.replicate_succ]
    simp [restSegments]

/-- The segments of a text of words: the words, and one with nothing in it for each separator but one of each run between two words. -/
theorem Worded.segments_text (w : Worded sep) :
    segments sep w.text = List.replicate w.lead [] ++ w.first.chars :: restSegments w.later w.trail := by
  rw [text, segments_replicate_append, segments_word w.first.not_mem (segments_tail w.later w.trail), List.append_nil]

/-- There is a segment with something in it for each word. -/
theorem Worded.length_filter_segments (w : Worded sep) :
    ((segments sep w.text).filter (· ≠ [])).length = w.later.length + 1 := by
  have hrest : (restSegments w.later w.trail).filter (· ≠ []) = w.later.map (·.2.chars) := by
    have hone : ∀ l : Nat × Word sep, (List.replicate l.1 [] ++ [l.2.chars]).filter (· ≠ []) = [l.2.chars] := by
      rintro ⟨n, v⟩
      simp [v.ne_nil]
    rw [restSegments, List.filter_append, List.filter_flatMap, List.filter_replicate]
    simp only [hone, ne_eq, not_true_eq_false, decide_false, Bool.false_eq_true, if_false, List.append_nil, List.map_eq_flatMap]
  rw [segments_text, List.filter_append, List.filter_cons_of_pos (by simpa using w.first.ne_nil), hrest]
  simp

/-! ## Joining -/

/-- Segments with nothing in them become separators. -/
theorem joinSegments_replicate (started : Bool) (n : Nat) (ss : List (List Char)) :
    joinSegments sep started (List.replicate n [] ++ ss) = List.replicate n sep ++ joinSegments sep started ss := by
  induction n with
  | zero => rfl
  | succ n ih => rw [List.replicate_succ, List.cons_append, joinSegments, ih, List.replicate_succ, List.cons_append]

/-- The first word is lowered, and each later one gets a capital. -/
theorem joinSegments_word (started : Bool) (v : Word sep) (ss : List (List Char)) :
    joinSegments sep started (v.chars :: ss) =
      (if started then capitalize v.chars else lower v.chars) ++ joinSegments sep true ss := by
  obtain ⟨c, cs, hcs⟩ := List.exists_cons_of_ne_nil v.ne_nil
  rw [hcs, joinSegments]
  exact List.cons_ne_nil c cs

/-- Below 128 a character has one capital form. -/
theorem capitalize_ascii {cs : List Char} (h : ∀ c ∈ cs, c.toNat < 128) : capitalize cs = cs.modifyHead Char.toUpper := by
  cases cs with
  | nil => rfl
  | cons c cs => rw [capitalize, upperChar, if_pos (h c List.mem_cons_self), List.singleton_append, List.modifyHead_cons]

/-- It has one small form, wherever it stands. -/
theorem lower_ascii {cs : List Char} (h : ∀ c ∈ cs, c.toNat < 128) : lower cs = cs.map Char.toLower := by
  have hafter : ∀ before, lowerAfter before cs = cs.map Char.toLower := by
    induction cs with
    | nil => exact fun _ => rfl
    | cons c cs ih =>
      obtain ⟨hc, hcs⟩ := List.forall_mem_cons.mp h
      have hsigma : c ≠ 'Σ' := by
        rintro rfl
        exact absurd hc (by decide)
      intro before
      rw [lowerAfter, lowerBetween, if_neg hsigma, lowerChar, if_pos hc, ih hcs, List.singleton_append, List.map_cons]
  exact hafter []

namespace Worded

/-- The characters of the words are characters of the text. -/
theorem forall_words {w : Worded sep} {P : Char → Prop} (h : ∀ c ∈ w.text, P c) :
    (∀ c ∈ w.first.chars, P c) ∧ ∀ l ∈ w.later, ∀ c ∈ l.2.chars, P c := by
  refine ⟨fun c hc => h c ?_, fun l hl c hc => h c ?_⟩
  · simp [text, hc]
  · have hmem : c ∈ w.later.flatMap fun l => List.replicate (l.1 + 1) sep ++ l.2.chars :=
      List.mem_flatMap.mpr ⟨l, hl, List.mem_append_right _ hc⟩
    simp [text, tail, hmem]

/-- Behind the first word the segments are joined to the later words and the separators that are left. -/
theorem joinSegments_rest {later : List (Nat × Word sep)} (h : ∀ l ∈ later, ∀ c ∈ l.2.chars, c.toNat < 128) (trail : Nat) :
    joinSegments sep true (restSegments later trail) = camelTail later trail := by
  induction later with
  | nil => simpa [restSegments, camelTail, joinSegments] using @joinSegments_replicate sep true trail []
  | cons l later ih =>
    obtain ⟨n, v⟩ := l
    obtain ⟨hv, hlater⟩ := List.forall_mem_cons.mp h
    have hnext : restSegments ((n, v) :: later) trail = List.replicate n [] ++ v.chars :: restSegments later trail := by
      simp [restSegments]
    rw [hnext, joinSegments_replicate, joinSegments_word, if_pos rfl, capitalize_ascii hv, ih hlater]
    simp [camelTail, Word.raised]

/-- So the segments of a text of words are joined to the text in camel case. -/
theorem joinSegments_text {w : Worded sep} (h : ∀ c ∈ w.text, c.toNat < 128) :
    joinSegments sep false (segments sep w.text) = w.camel := by
  obtain ⟨hfirst, hlater⟩ := forall_words h
  rw [segments_text, joinSegments_replicate, joinSegments_word, if_neg (by decide), lower_ascii hfirst, joinSegments_rest hlater]
  rfl

/-- Behind the first word one character less is written for each later word. -/
theorem length_camelTail (later : List (Nat × Word sep)) (trail : Nat) :
    (camelTail later trail).length + later.length = (tail later trail).length := by
  induction later with
  | nil => rfl
  | cons l later ih =>
    simp only [camelTail, tail, Word.raised, List.flatMap_cons, List.length_append, List.length_replicate, List.length_modifyHead,
      List.length_cons] at ih ⊢
    omega

/-- So the text in camel case is shorter by these. -/
theorem length_camel (w : Worded sep) : w.camel.length + w.later.length = w.text.length := by
  have htail := length_camelTail w.later w.trail
  simp only [camel, Word.lowered, text, List.length_append, List.length_replicate, List.length_map]
  omega

end Worded

/-! ## Separators in words -/

/-- A character below 128 in another case is itself or a letter. -/
theorem recased_ascii {c : Char} (hc : c.toNat < 128) :
    (c.toLower = c ∨ c.toLower.isAlpha = true) ∧ (c.toUpper = c ∨ c.toUpper.isAlpha = true) :=
  forall_ascii (P := fun c => (c.toLower = c ∨ c.toLower.isAlpha = true) ∧ (c.toUpper = c ∨ c.toUpper.isAlpha = true))
    (by decide +kernel) hc

/-- No separator comes into a word with a change of case. -/
theorem Word.not_mem_recased (hsep : sep.isAlpha = false) {v : Word sep} (h : ∀ c ∈ v.chars, c.toNat < 128) :
    sep ∉ v.lowered ∧ sep ∉ v.raised := by
  have hletter : ∀ {c d : Char}, c ≠ sep → d = c ∨ d.isAlpha = true → d ≠ sep := by
    rintro c d hc (rfl | hd) rfl
    · exact hc rfl
    · rw [hsep] at hd
      cases hd
  refine ⟨fun hmem => ?_, fun hmem => ?_⟩
  · obtain ⟨c, hc, heq⟩ := List.mem_map.mp hmem
    exact hletter (ne_of_mem_of_not_mem hc v.not_mem) (recased_ascii (h c hc)).1 heq
  · obtain ⟨c, cs, hcs⟩ := List.exists_cons_of_ne_nil v.ne_nil
    have hnone := v.not_mem
    rw [hcs, List.mem_cons, not_or] at hnone
    rw [raised, hcs, List.modifyHead_cons] at hmem
    rcases List.mem_cons.mp hmem with heq | hmem
    · exact hletter (Ne.symm hnone.1) (recased_ascii (h c (hcs ▸ List.mem_cons_self))).2 heq.symm
    · exact hnone.2 hmem

/-- A text in camel case has its words in their order, the first in small letters and each later one with a capital, and no separator in any
of them. In front of the first word and behind the last there are as many separators as there were, and between two words there is one less,
by which it is shorter. A text with a character that is no separator is such a row of words, and separators alone become one more. -/
theorem camelCase_runs {name : String} (hsep : sep.isAlpha = false) (hname : ∀ c ∈ name.toList, c.toNat < 128) :
    (∀ w : Worded sep, w.text = name.toList →
      (camelCase sep name).toList = w.camel ∧ (sep ∉ w.first.lowered ∧ ∀ l ∈ w.later, sep ∉ l.2.raised) ∧
        (camelCase sep name).length = name.length + 1 - ((name.toList.splitOn sep).filter (· ≠ [])).length) ∧
      ((∃ c ∈ name.toList, c ≠ sep) → ∃ w : Worded sep, w.text = name.toList) ∧
        ∀ n, name.toList = List.replicate n sep → (camelCase sep name).toList = List.replicate (n + 1) sep := by
  refine ⟨fun w hw => ?_, ?_, fun n hn => ?_⟩
  · rw [← hw] at hname
    have hcamel : (camelCase sep name).toList = w.camel := by
      rw [camelCase, String.toList_ofList, ← hw, Worded.joinSegments_text hname]
    obtain ⟨hfirst, hlater⟩ := Worded.forall_words hname
    refine ⟨hcamel, ⟨(Word.not_mem_recased hsep hfirst).1, fun l hl => (Word.not_mem_recased hsep (hlater l hl)).2⟩, ?_⟩
    have hlength := w.length_camel
    rw [← String.length_toList, ← String.length_toList, hcamel, ← hw, ← segments_eq_splitOn, w.length_filter_segments]
    omega
  · rintro ⟨c, hc, hne⟩
    refine (exists_worded sep name.toList).resolve_left ?_
    rintro ⟨n, hn⟩
    rw [hn] at hc
    exact hne (List.eq_of_mem_replicate hc)
  · have hjoin := @joinSegments_replicate sep false (n + 1) []
    rw [List.append_nil] at hjoin
    rw [camelCase, String.toList_ofList, hn, segments_replicate, hjoin, joinSegments, List.append_nil]

/-- Three words, two of them with capitals, and runs of one, two and three hyphens. -/
theorem camelCase_runs_hyphens : camelCase '-' "-Get--HTTP-state---" = "-get-HTTPState---" ∧
    (camelCase '-' "-Get--HTTP-state---").length = "-Get--HTTP-state---".length + 1 - 3 ∧ (camelCase '-' "--").toList = ['-', '-', '-'] := by
  obtain ⟨hwords, -, -⟩ := @camelCase_runs '-' "-Get--HTTP-state---" (by decide) (by simp)
  obtain ⟨hcamel, -, hlength⟩ := hwords
    ⟨1, ⟨"Get".toList, by decide, by decide⟩,
      [(1, ⟨"HTTP".toList, by decide, by decide⟩), (0, ⟨"state".toList, by decide, by decide⟩)], 3⟩ (by decide)
  exact ⟨String.toList_inj.mp (hcamel.trans (by decide +kernel)), hlength.trans (by decide +kernel),
    (@camelCase_runs '-' "--" (by decide) (by simp)).2.2 2 (by decide)⟩

end QueryStubs.Text
