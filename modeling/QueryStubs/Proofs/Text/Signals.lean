import Mathlib
import QueryStubs.Text.Style

/-!
# Texts with styles

A terminal reads a text with styles as signals: characters that are shown and codes of styles. Without its styles, a text is the characters
that are shown. A text is settled if every style in it is switched off again before it ends.

`Tinted` says of a text that it is another one with styles in it and that it is settled. It holds of texts without an escape character, which
are the same without their styles, and of such texts between a style and the code that switches it off, and it is kept where texts are put
one after another.
-/

namespace QueryStubs.Text

/-- A text without the escape character. -/
def Unescaped (s : String) : Prop := '\x1b' ∉ s.toList

instance (s : String) : Decidable (Unescaped s) := inferInstanceAs (Decidable (¬ _))

/-! ## Signals -/

/-- A character that is shown, or the code of a style. -/
inductive Signal where
  | shown (c : Char)
  | style (code : String)
  deriving DecidableEq, Repr

/-- The code of the style that a text starts with, and what follows: the escape character, an opening bracket, digits and the letter m. -/
def readStyle? : List Char → Option (String × List Char)
  | '\x1b' :: '[' :: cs =>
    match cs.takeWhile Char.isDigit, cs.dropWhile Char.isDigit with
    | d :: ds, 'm' :: rest => some (String.ofList (d :: ds), rest)
    | _, _ => none
  | _ => none

/-- Behind a style fewer characters are left. -/
theorem length_readStyle? {cs rest : List Char} {code : String} (h : readStyle? cs = some (code, rest)) : rest.length < cs.length := by
  unfold readStyle? at h
  split at h
  · rename_i cs
    split at h
    · rename_i hdrop
      cases h
      have hlength := (List.dropWhile_sublist (l := cs) Char.isDigit).length_le
      rw [hdrop, List.length_cons] at hlength
      simp only [List.length_cons]
      omega
    · cases h
  · cases h

/-- What a terminal reads. -/
def signals : List Char → List Signal
  | [] => []
  | c :: cs =>
    match _h : readStyle? (c :: cs) with
    | some (code, rest) => .style code :: signals rest
    | none => .shown c :: signals cs
termination_by cs => cs.length
decreasing_by
  · exact length_readStyle? _h
  · exact Nat.lt_succ_self _

/-- A character that starts no style is shown. -/
theorem signals_shown {c : Char} {cs : List Char} (h : readStyle? (c :: cs) = none) : signals (c :: cs) = .shown c :: signals cs := by
  rw [signals]
  split
  · rename_i heq
    rw [h] at heq
    cases heq
  · rfl

/-- A style is one signal. -/
theorem signals_style {c : Char} {cs rest : List Char} {code : String} (h : readStyle? (c :: cs) = some (code, rest)) :
    signals (c :: cs) = .style code :: signals rest := by
  rw [signals]
  split
  · rename_i heq
    rw [h] at heq
    cases heq
    rfl
  · rename_i heq
    rw [h] at heq
    cases heq

/-- The characters that are shown. -/
def shownOf (ss : List Signal) : List Char :=
  ss.filterMap fun
    | .shown c => some c
    | .style _ => none

/-- A text without its styles: every sequence of an escape character, an opening bracket, digits and the letter m is taken out. -/
def unstyled (s : String) : String := String.ofList (shownOf (signals s.toList))

/-- Every style is switched off later on, by the code 0. -/
def SettledSignals : List Signal → Prop
  | [] => True
  | .shown _ :: ss => SettledSignals ss
  | .style code :: ss => (code ≠ "0" → .style "0" ∈ ss) ∧ SettledSignals ss

/-- Every style of a text is switched off before the text ends. -/
def Settled (s : String) : Prop := SettledSignals (signals s.toList)

/-- Styles that are reset in either of two rows are so in both together. -/
theorem SettledSignals.append {ss ts : List Signal} (hs : SettledSignals ss) (ht : SettledSignals ts) : SettledSignals (ss ++ ts) := by
  induction ss with
  | nil => exact ht
  | cons s ss ih =>
    cases s with
    | shown c => exact ih hs
    | style code => exact ⟨fun hcode => List.mem_append_left _ (hs.1 hcode), ih hs.2⟩

/-- They are where nothing but characters is shown. -/
theorem SettledSignals.shown (cs : List Char) : SettledSignals (cs.map .shown) := by
  induction cs with
  | nil => trivial
  | cons c cs ih => exact ih

/-! ## Reading texts one after another -/

/-- A text is read as some signals, whatever follows it. -/
def Reads (cs : List Char) (ss : List Signal) : Prop := ∀ rest, signals (cs ++ rest) = ss ++ signals rest

/-- What is read as some signals has these. -/
theorem Reads.signals_eq {cs : List Char} {ss : List Signal} (h : Reads cs ss) : signals cs = ss := by
  have hend := h []
  rwa [List.append_nil, signals, List.append_nil] at hend

/-- Texts are read one after the other. -/
theorem Reads.append {cs ds : List Char} {ss ts : List Signal} (hs : Reads cs ss) (ht : Reads ds ts) : Reads (cs ++ ds) (ss ++ ts) := by
  intro rest
  rw [List.append_assoc, hs, ht, List.append_assoc]

/-- Without an escape character every character is shown. -/
theorem Reads.shown {cs : List Char} (h : '\x1b' ∉ cs) : Reads cs (cs.map .shown) := by
  intro rest
  induction cs with
  | nil => rfl
  | cons c cs ih =>
    rw [List.mem_cons, not_or] at h
    have hnone : readStyle? (c :: (cs ++ rest)) = none := by
      unfold readStyle?
      split
      · rename_i heq
        exact absurd (List.cons.inj heq).1.symm h.1
      · rfl
    rw [List.cons_append, signals_shown hnone, ih h.2]
    rfl

/-- The sequence of a code is read as a style. -/
theorem Reads.style {code : String} (hdigits : code.toList.all Char.isDigit = true) (hsome : code ≠ "") :
    Reads (Text.style code).toList [.style code] := by
  intro rest
  have hall := List.all_eq_true.mp hdigits
  obtain ⟨d, ds, hcode⟩ := List.exists_cons_of_ne_nil (fun h => hsome (String.toList_eq_nil_iff.mp h))
  have hchars : (Text.style code).toList ++ rest = '\x1b' :: '[' :: (code.toList ++ 'm' :: rest) := by
    simp [Text.style]
  have htake : (code.toList ++ 'm' :: rest).takeWhile Char.isDigit = d :: ds := by
    rw [List.takeWhile_append_of_pos hall, hcode]
    exact List.append_nil _
  have hdrop : (code.toList ++ 'm' :: rest).dropWhile Char.isDigit = 'm' :: rest := by
    rw [List.dropWhile_append_of_pos hall]
    rfl
  have hread : readStyle? ('\x1b' :: '[' :: (code.toList ++ 'm' :: rest)) = some (code, rest) := by
    rw [readStyle?, htake, hdrop]
    change some (String.ofList (d :: ds), rest) = some (code, rest)
    rw [← hcode, String.ofList_toList]
  rw [hchars, signals_style hread]
  rfl

/-! ## Texts with and without styles -/

/-- A text is another one with styles in it, each of which is switched off again. -/
def Tinted (tinted plain : String) : Prop :=
  ∃ ss, Reads tinted.toList ss ∧ shownOf ss = plain.toList ∧ SettledSignals ss

namespace Tinted

variable {s t p q : String}

/-- A tinted text is the plain one without its styles. -/
theorem unstyled_eq (h : Tinted t p) : unstyled t = p := by
  obtain ⟨ss, hreads, hshown, -⟩ := h
  rw [unstyled, hreads.signals_eq, hshown, String.ofList_toList]

/-- Its styles are reset where they should be. -/
theorem settled (h : Tinted t p) : Settled t := by
  obtain ⟨ss, hreads, -, hsettled⟩ := h
  rwa [Settled, hreads.signals_eq]

/-- Tinted texts are tinted one after the other. -/
theorem append (hs : Tinted s p) (ht : Tinted t q) : Tinted (s ++ t) (p ++ q) := by
  obtain ⟨ss, hreads, hshown, hsettled⟩ := hs
  obtain ⟨ts, hreads', hshown', hsettled'⟩ := ht
  refine ⟨ss ++ ts, ?_, ?_, hsettled.append hsettled'⟩
  · rw [String.toList_append]
    exact hreads.append hreads'
  · rw [shownOf, List.filterMap_append, String.toList_append, ← hshown, ← hshown']
    rfl

/-- A text without an escape character has no styles. -/
theorem refl (h : Unescaped s) : Tinted s s := by
  refine ⟨s.toList.map .shown, .shown h, ?_, .shown _⟩
  rw [shownOf, List.filterMap_map]
  exact List.filterMap_some

/-- A text between a style and the code that switches it off. -/
theorem between {code : String} (hdigits : code.toList.all Char.isDigit = true) (hsome : code ≠ "") (h : Unescaped s) :
    Tinted (style code ++ s ++ style "0") s := by
  refine ⟨.style code :: (s.toList.map .shown ++ [.style "0"]), ?_, ?_, ?_⟩
  · rw [String.toList_append, String.toList_append]
    exact ((Reads.style hdigits hsome).append (.shown h)).append (.style (by decide) (by decide))
  · have hmap : (s.toList.map Signal.shown).filterMap (fun | .shown c => some c | .style _ => none) = s.toList := by
      rw [List.filterMap_map]
      exact List.filterMap_some
    rw [shownOf, List.filterMap_cons_none rfl, List.filterMap_append, hmap]
    exact List.append_nil _
  · exact ⟨fun _ => List.mem_append_right _ List.mem_cons_self, (SettledSignals.shown _).append ⟨nofun, trivial⟩⟩

/-- They are so with a tinted text in between. -/
theorem intercalate {ts ps : List String} (hsep : Tinted s p) (h : List.Forall₂ Tinted ts ps) :
    Tinted (String.intercalate s ts) (String.intercalate p ps) := by
  induction h with
  | nil => exact refl List.not_mem_nil
  | cons ht hts ih =>
    cases hts with
    | nil =>
      rw [String.intercalate_singleton, String.intercalate_singleton]
      exact ht
    | cons ht' hts' =>
      rw [String.intercalate_cons_of_ne_nil (List.cons_ne_nil _ _), String.intercalate_cons_of_ne_nil (List.cons_ne_nil _ _)]
      exact (ht.append hsep).append ih

end Tinted

end QueryStubs.Text
