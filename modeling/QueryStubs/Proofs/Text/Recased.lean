import Mathlib
import QueryStubs.Text.Camel

/-!
# Characters of a text in another case

A property of characters that no change of case takes away (`KeptByCase`) is one of all characters of a text in camel case or with a capital
if it is one of all characters of the text.
-/

namespace QueryStubs.Text

/-- A character with the property has only such characters in its other case, wherever it stands. -/
structure KeptByCase (P : Char → Prop) : Prop where
  upper : ∀ {c}, P c → ∀ d ∈ upperChar c, P d
  lower : ∀ {before c after}, P c → ∀ d ∈ lowerBetween before c after, P d

/-- There are few enough characters below 128 to try them all. -/
theorem forall_ascii {P : Char → Prop} (h : ∀ n < 128, P (.ofNat n)) {c : Char} (hc : c.toNat < 128) : P c :=
  Char.ofNat_toNat c ▸ h c.toNat hc

/-- Parts of a text have the characters of the text. -/
theorem forall_segments {P : Char → Prop} {sep : Char} {cs : List Char} (h : ∀ c ∈ cs, P c) : ∀ s ∈ segments sep cs, ∀ d ∈ s, P d := by
  induction cs with
  | nil => simp [segments]
  | cons c cs ih =>
    obtain ⟨hc, hcs⟩ := List.forall_mem_cons.mp h
    have htail := ih hcs
    rw [segments]
    split
    · exact List.forall_mem_cons.mpr ⟨List.forall_mem_nil _, htail⟩
    · split
      · simpa using hc
      · next s ss hss =>
        rw [hss] at htail
        obtain ⟨hs, hss⟩ := List.forall_mem_cons.mp htail
        exact List.forall_mem_cons.mpr ⟨List.forall_mem_cons.mpr ⟨hc, hs⟩, hss⟩

namespace KeptByCase

variable {P : Char → Prop} (hP : KeptByCase P)

include hP

theorem capitalize {cs : List Char} (h : ∀ c ∈ cs, P c) : ∀ d ∈ Text.capitalize cs, P d := by
  cases cs with
  | nil => exact List.forall_mem_nil _
  | cons c cs =>
    obtain ⟨hc, hcs⟩ := List.forall_mem_cons.mp h
    intro d hd
    rcases List.mem_append.mp hd with hd | hd
    · exact hP.upper hc d hd
    · exact hcs d hd

theorem lowered {cs : List Char} (h : ∀ c ∈ cs, P c) : ∀ d ∈ Text.lower cs, P d := by
  have hafter : ∀ before, ∀ d ∈ lowerAfter before cs, P d := by
    induction cs with
    | nil => exact fun _ => List.forall_mem_nil _
    | cons c cs ih =>
      obtain ⟨hc, hcs⟩ := List.forall_mem_cons.mp h
      intro before d hd
      rcases List.mem_append.mp hd with hd | hd
      · exact hP.lower hc d hd
      · exact ih hcs _ d hd
  exact hafter []

theorem joinSegments {sep : Char} (hsep : P sep) {started : Bool} {ss : List (List Char)} (h : ∀ s ∈ ss, ∀ d ∈ s, P d) :
    ∀ d ∈ Text.joinSegments sep started ss, P d := by
  induction ss generalizing started with
  | nil => exact List.forall_mem_nil _
  | cons s ss ih =>
    obtain ⟨hs, hss⟩ := List.forall_mem_cons.mp h
    cases s with
    | nil => exact List.forall_mem_cons.mpr ⟨hsep, ih hss⟩
    | cons c cs =>
      intro d hd
      rw [Text.joinSegments] at hd
      rcases List.mem_append.mp hd with hd | hd
      · split at hd
        · exact hP.capitalize hs d hd
        · exact hP.lowered hs d hd
      · exact ih hss d hd
      · exact nofun

/-- The characters of a name in camel case. -/
theorem camelCase {sep : Char} (hsep : P sep) {name : String} (h : ∀ c ∈ name.toList, P c) :
    ∀ d ∈ (Text.camelCase sep name).toList, P d := by
  rw [Text.camelCase, String.toList_ofList]
  exact hP.joinSegments hsep (forall_segments h)

/-- The characters of a name with a capital. -/
theorem titleCase {name : String} (h : ∀ c ∈ name.toList, P c) : ∀ d ∈ (Text.titleCase name).toList, P d := by
  rw [Text.titleCase, String.toList_ofList]
  exact hP.capitalize h

end KeptByCase

/-! ## The escape character -/

/-- What the tables map a character to is no escape character if no run reaches down to it and no expansion has it. -/
theorem escape_not_mem_recase {runs : List (Nat × Nat × Nat × Int)} {expansions : List (Nat × List Nat)} {c : Char}
    (hruns : ∀ run ∈ runs, 27 < (run.1 : Int) + run.2.2.2) (hexpansions : ∀ e ∈ expansions, 27 ∉ e.2) (hc : c ≠ '\x1b') :
    '\x1b' ∉ recase runs expansions c := by
  have hchar : ∀ n, Char.ofNat n = '\x1b' → n = 27 := by
    intro n h
    have hn : (Char.ofNat n).toNat = 27 := congrArg Char.toNat h
    unfold Char.ofNat at hn
    split at hn
    · exact hn
    · exact absurd hn (by decide)
  unfold recase
  split
  · rename_i ns hns
    obtain ⟨before, after, hmem, -⟩ := List.lookup_eq_some_iff.mp hns
    intro h
    obtain ⟨n, hn, heq⟩ := List.mem_map.mp h
    exact hexpansions (c.toNat, ns) (by simp [hmem]) (hchar n heq ▸ hn)
  · rw [List.mem_singleton]
    cases hrun : runs.findSome? (shiftBy? c.toNat) with
    | none => exact fun h => hc h.symm
    | some n =>
      intro h
      have hn := hchar n h.symm
      obtain ⟨run, hmem, hshift⟩ := List.exists_of_findSome?_eq_some hrun
      obtain ⟨low, high, step, shift⟩ := run
      have hlow : 27 < (low : Int) + shift := hruns _ hmem
      unfold shiftBy? at hshift
      simp only at hshift
      split at hshift
      · rename_i hin
        simp only [Bool.and_eq_true, decide_eq_true_eq] at hin
        have heq := Option.some.inj hshift
        omega
      · cases hshift

/-- No other character has an escape character as its other case. -/
theorem keptByCase_unescaped : KeptByCase (· ≠ '\x1b') := by
  have hascii : ∀ {c : Char}, c.toNat < 128 → c ≠ '\x1b' → c.toUpper ≠ '\x1b' ∧ c.toLower ≠ '\x1b' :=
    fun hc => forall_ascii (P := fun c => c ≠ '\x1b' → c.toUpper ≠ '\x1b' ∧ c.toLower ≠ '\x1b') (by decide +kernel) hc
  have hnone : ∀ {cs : List Char}, '\x1b' ∉ cs → ∀ d ∈ cs, d ≠ '\x1b' := fun h d hd heq => h (heq ▸ hd)
  refine ⟨fun {c} hc => hnone ?_, fun {before c after} hc => hnone ?_⟩
  · unfold upperChar
    split
    · rename_i hlt
      exact fun h => (hascii hlt hc).1 (List.mem_singleton.mp h).symm
    · exact escape_not_mem_recase (by decide +kernel) (by decide +kernel) hc
  · unfold lowerBetween
    split
    · split <;> decide
    · unfold lowerChar
      split
      · rename_i hlt
        exact fun h => (hascii hlt hc).2 (List.mem_singleton.mp h).symm
      · exact escape_not_mem_recase (by decide +kernel) (by decide +kernel) hc

end QueryStubs.Text
