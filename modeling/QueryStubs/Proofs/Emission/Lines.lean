import Mathlib
import QueryStubs.Proofs.Text.Recased
import QueryStubs.Proofs.Written.Source

/-!
# Lines and blocks of a text

A text in which every line has a line feed after it falls apart into these lines (`Text.lines_unlines`), and where some lines of it are
empty, into the blocks between them (`Text.blocks_unlines`). What is made of a name by changing its case has the characters of names
only, so it stays on its line.
-/

namespace QueryStubs.Text

/-! ## Texts on one line -/

/-- A text without a line feed. -/
def OneLine (s : String) : Prop := '\n' ∉ s.toList

instance (s : String) : Decidable (OneLine s) := inferInstanceAs (Decidable (¬ _))

/-- Two texts of one line are one line together. -/
theorem OneLine.append {s t : String} (hs : OneLine s) (ht : OneLine t) : OneLine (s ++ t) := by
  unfold OneLine
  rw [String.toList_append, List.mem_append]
  rintro (h | h)
  · exact hs h
  · exact ht h

/-- So are many, with a text of one line in between. -/
theorem OneLine.intercalate {s : String} {ts : List String} (hs : OneLine s) (ht : ∀ t ∈ ts, OneLine t) :
    OneLine (String.intercalate s ts) := by
  induction ts with
  | nil => exact List.not_mem_nil
  | cons t ts ih =>
    have hhead := ht t List.mem_cons_self
    have htail := ih fun u hu => ht u (List.mem_cons_of_mem _ hu)
    by_cases hnil : ts = []
    · subst hnil
      rw [String.intercalate_singleton]
      exact hhead
    · rw [String.intercalate_cons_of_ne_nil hnil]
      exact (hhead.append hs).append htail

/-! ## Lines and blocks -/

/-- Some lines, each with a line feed after it. -/
def unlines (ls : List String) : String := String.join (ls.map (· ++ "\n"))

/-- The lines of a text without the line feeds after them. What stands after the last line feed is no line. -/
def lines (s : String) : List String := (s.toList.splitOn '\n').dropLast.map String.ofList

/-- The parts of a text between empty lines, each as its lines. -/
def blocks (s : String) : List (List String) := (lines s).splitOn ""

@[simp] theorem unlines_nil : unlines [] = "" := rfl

@[simp] theorem unlines_cons (l : String) (ls : List String) : unlines (l :: ls) = l ++ "\n" ++ unlines ls := by
  rw [unlines, List.map_cons, String.join_cons]
  rfl

/-- Lines are joined one after the other. -/
@[simp] theorem unlines_append (ls ms : List String) : unlines (ls ++ ms) = unlines ls ++ unlines ms := by
  rw [unlines, List.map_append, String.join_append]
  rfl

/-- Lines that are put down one after another are the lines of the text. -/
theorem lines_unlines {ls : List String} (h : ∀ l ∈ ls, OneLine l) : lines (unlines ls) = ls := by
  have hchars : (unlines ls).toList = ['\n'].intercalate (ls.map String.toList ++ [[]]) := by
    clear h
    induction ls with
    | nil => rfl
    | cons l ls ih =>
      rw [unlines_cons, List.map_cons, List.cons_append, List.intercalate_cons_of_ne_nil (by simp), ← ih]
      simp
  have hsplit : (['\n'].intercalate (ls.map String.toList ++ [[]])).splitOn '\n' = ls.map String.toList ++ [[]] := by
    refine List.splitOn_intercalate '\n' ?_ (by simp)
    intro l hl
    rcases List.mem_append.mp hl with hl | hl
    · obtain ⟨s, hs, rfl⟩ := List.mem_map.mp hl
      exact h s hs
    · rw [List.mem_singleton.mp hl]
      exact List.not_mem_nil
  rw [lines, hchars, hsplit, List.dropLast_concat, List.map_map]
  have hid : String.ofList ∘ String.toList = id := funext fun s => String.ofList_toList
  rw [hid, List.map_id]

/-- Blocks with an empty line between them are the lines of all of them and the empty ones. -/
theorem intercalate_unlines (bs : List (List String)) : String.intercalate "\n" (bs.map unlines) = unlines ([""].intercalate bs) := by
  induction bs with
  | nil => rfl
  | cons b bs ih =>
    by_cases hnil : bs = []
    · subst hnil
      simp
    · rw [List.map_cons, String.intercalate_cons_of_ne_nil (by simpa using hnil), List.intercalate_cons_of_ne_nil hnil, ih]
      simp [String.append_assoc]

/-- Blocks that are put down with an empty line between them are the blocks of the text. -/
theorem blocks_unlines {bs : List (List String)} (hnone : bs ≠ []) (hone : ∀ b ∈ bs, ∀ l ∈ b, OneLine l)
    (hempty : ∀ b ∈ bs, "" ∉ b) : blocks (String.intercalate "\n" (bs.map unlines)) = bs := by
  have hlines : ∀ l ∈ [""].intercalate bs, OneLine l := by
    clear hnone hempty
    induction bs with
    | nil => exact List.forall_mem_nil _
    | cons b bs ih =>
      have hb := hone b List.mem_cons_self
      by_cases hnil : bs = []
      · subst hnil
        simpa using hb
      · intro l hl
        rw [List.intercalate_cons_of_ne_nil hnil, List.append_assoc, List.mem_append, List.mem_append, List.mem_singleton] at hl
        rcases hl with hl | hl | hl
        · exact hb l hl
        · subst hl
          exact List.not_mem_nil
        · exact ih (fun b' hb' => hone b' (List.mem_cons_of_mem _ hb')) l hl
  rw [blocks, intercalate_unlines, lines_unlines hlines]
  exact List.splitOn_intercalate "" hempty hnone

/-! ## Names in another case -/

/-- The characters of names are ASCII. -/
theorem toNat_lt_of_isNameChar {c : Char} (h : isNameChar c = true) : c.toNat < 128 := by
  simp only [isNameChar, Char.isAlphanum, Char.isAlpha, Char.isUpper, Char.isLower, Char.isDigit, Bool.or_eq_true, Bool.and_eq_true,
    decide_eq_true_eq, UInt32.le_iff_toNat_le, ge_iff_le] at h
  change (((((65 ≤ c.toNat ∧ c.toNat ≤ 90) ∨ (97 ≤ c.toNat ∧ c.toNat ≤ 122)) ∨ (48 ≤ c.toNat ∧ c.toNat ≤ 57)) ∨ c = '_') ∨ c = '.') ∨
    c = '-' at h
  rcases h with ((((h | h) | h) | rfl) | rfl) | rfl
  · omega
  · omega
  · omega
  · decide
  · decide
  · decide

/-- In another case a character of a name is a character of a name. -/
theorem keptByCase_name : KeptByCase (isNameChar · = true) := by
  have hascii : ∀ {c : Char}, isNameChar c = true → isNameChar c.toUpper = true ∧ isNameChar c.toLower = true := fun {c} h =>
    forall_ascii (P := fun c => isNameChar c = true → isNameChar c.toUpper = true ∧ isNameChar c.toLower = true) (by decide +kernel)
      (toNat_lt_of_isNameChar h) h
  refine ⟨fun {c} h => ?_, fun {before c after} h => ?_⟩
  · rw [upperChar, if_pos (toNat_lt_of_isNameChar h)]
    exact List.forall_mem_singleton.mpr (hascii h).1
  · have hsigma : c ≠ 'Σ' := by
      rintro rfl
      exact absurd h (by decide)
    rw [lowerBetween, if_neg hsigma, lowerChar, if_pos (toNat_lt_of_isNameChar h)]
    exact List.forall_mem_singleton.mpr (hascii h).2

/-- A text of characters of names stays on its line. -/
theorem OneLine.of_name {s : String} (h : ∀ c ∈ s.toList, isNameChar c = true) : OneLine s := by
  intro hmem
  exact absurd (h _ hmem) (by decide)

/-- A name has characters of names only. -/
theorem isNameChar_of_isNCName {s : String} (h : IsNCName s) : ∀ c ∈ s.toList, isNameChar c = true := by
  obtain ⟨c, cs, hs, hc, hcs⟩ := h.toList
  rw [hs]
  refine List.forall_mem_cons.mpr ⟨?_, hcs⟩
  unfold isNameStart at hc
  unfold isNameChar Char.isAlphanum
  revert hc
  cases c.isAlpha <;> simp +contextual

/-- A name is one line. -/
theorem OneLine.of_isNCName {s : String} (h : IsNCName s) : OneLine s := of_name (isNameChar_of_isNCName h)

/-- It is so in title case. -/
theorem OneLine.titleCase {s : String} (h : IsNCName s) : OneLine (titleCase s) :=
  of_name (keptByCase_name.titleCase (isNameChar_of_isNCName h))

/-- It is so in camel case. -/
theorem OneLine.camelCase {s : String} (h : IsNCName s) : OneLine (camelCase '-' s) :=
  of_name (keptByCase_name.camelCase rfl (isNameChar_of_isNCName h))

end QueryStubs.Text
