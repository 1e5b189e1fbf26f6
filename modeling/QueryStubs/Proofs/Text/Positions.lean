import Mathlib
import QueryStubs.Text.Position

/-!
# Positions and offsets

A position is read from the characters in front of an offset only (`Position.ofOffset_prefix`). The line feeds among them are counted by the
line and the characters behind the last of them by the column, so with more characters in front a position is later, and the line and the
column lead back to the offset (`Position.ofOffset_embeds`).
-/

namespace QueryStubs.Position

open String (utf8Len)

/-- The line and the column of a position, of which the line is compared first. -/
def place (p : Position) : Nat ×ₗ Nat := toLex (p.line, p.column)

/-- The offset of a line and a column: the lines in front of the line are passed over with their line feeds, and then as many characters of it
as stand in front of the column. There is none if the text has no such line or the line ends in front of the column. -/
def offsetAt? (source : String) : Nat → Nat → Option Nat
  | line + 1, column + 1 => do
    let lines := source.toList.splitOn '\n'
    let chars ← lines[line]?
    if column ≤ chars.length then
      return utf8Len ((lines.take line).flatMap (· ++ ['\n'])) + utf8Len (chars.take column)
    else none
  | _, _ => none

/-! ## What stands in front of an offset -/

/-- A text ends in front of an offset if the next character does not. -/
theorem charsBefore_eq {offset : Nat} {front back : List Char} (hfront : utf8Len front ≤ offset)
    (hback : ∀ c ∈ back.head?, offset < utf8Len front + c.utf8Size) : charsBefore offset (front ++ back) = front := by
  induction front generalizing offset with
  | nil =>
    cases back with
    | nil => rfl
    | cons c back =>
      have hc : offset < 0 + c.utf8Size := hback c rfl
      rw [List.nil_append, charsBefore, if_neg (by omega)]
  | cons c front ih =>
    rw [String.utf8Len_cons] at hfront hback
    rw [List.cons_append, charsBefore, if_pos (by omega), ih (by omega) fun d hd => ?_]
    have hd := hback d hd
    omega

/-- The position of an offset by what stands in front of it. -/
theorem ofOffset_prefix {source : String} {offset : Nat} {front back : List Char} (hsource : source.toList = front ++ back)
    (hfront : utf8Len front ≤ offset) (hback : ∀ c ∈ back.head?, offset < utf8Len front + c.utf8Size) :
    (ofOffset source offset).line = front.count '\n' + 1 ∧ (ofOffset source offset).column = (lastLine front).length + 1 := by
  have hsize : source.utf8ByteSize = utf8Len front + utf8Len back := by
    rw [← String.ofList_toList (s := source), String.utf8ByteSize_ofList, hsource, String.utf8Len_append]
  have hbefore : charsBefore (min offset source.utf8ByteSize) source.toList = front := by
    rw [hsource]
    refine charsBefore_eq (by omega) fun c hc => ?_
    have hc := hback c hc
    omega
  rw [ofOffset]
  simp only [hbefore, and_self]

/-- Where characters begin or end, the text falls apart. -/
theorem exists_front {source : String} {offset : Nat} (h : String.Pos.Raw.IsValid source ⟨offset⟩) :
    ∃ front back, source.toList = front ++ back ∧ utf8Len front = offset := by
  obtain ⟨front, back, rfl, hoffset⟩ := String.Pos.Raw.isValid_iff_exists_append.mp h
  refine ⟨front.toList, back.toList, String.toList_append, ?_⟩
  rw [← String.utf8ByteSize_ofList, String.ofList_toList]
  exact (String.Pos.Raw.mk.inj hoffset).symm

/-- There the position is that of the text in front. -/
theorem ofOffset_front {source : String} {front back : List Char} (hsource : source.toList = front ++ back) :
    (ofOffset source (utf8Len front)).line = front.count '\n' + 1 ∧
      (ofOffset source (utf8Len front)).column = (lastLine front).length + 1 := by
  refine ofOffset_prefix hsource (Nat.le_refl _) fun c _ => ?_
  have hc := c.utf8Size_pos
  omega

/-! ## Lines -/

/-- More characters on a line. -/
theorem lastLine_append {cs ds : List Char} (h : '\n' ∉ ds) : lastLine (cs ++ ds) = lastLine cs ++ ds := by
  have hds : ∀ d ∈ ds.reverse, decide (d ≠ '\n') = true := by
    intro d hd
    rw [decide_eq_true_iff]
    rintro rfl
    exact h (List.mem_reverse.mp hd)
  rw [lastLine, List.reverse_append, List.takeWhile_append_of_pos hds, List.reverse_append, List.reverse_reverse]
  rfl

/-- A text is its lines, each with its line feed, and what stands behind the last one. -/
theorem exists_lines (cs : List Char) : ∃ ls : List (List Char), (∀ l ∈ ls, '\n' ∉ l) ∧ ls.length = cs.count '\n' ∧
    '\n' ∉ lastLine cs ∧ cs = ls.flatMap (· ++ ['\n']) ++ lastLine cs := by
  induction cs using List.reverseRecOn with
  | nil => exact ⟨[], List.forall_mem_nil _, rfl, List.not_mem_nil, rfl⟩
  | append_singleton cs c ih =>
    obtain ⟨ls, hls, hlength, hlast, hcs⟩ := ih
    by_cases hc : c = '\n'
    · -- the last line is ended, and behind it stands nothing yet
      subst hc
      have hempty : lastLine (cs ++ ['\n']) = [] := by simp [lastLine]
      rw [hempty]
      refine ⟨ls ++ [lastLine cs], ?_, by simp [hlength], List.not_mem_nil, ?_⟩
      · intro l hl
        rcases List.mem_append.mp hl with hl | hl
        · exact hls l hl
        · exact List.mem_singleton.mp hl ▸ hlast
      · rw [List.append_nil, List.flatMap_append, List.flatMap_singleton, ← List.append_assoc, ← hcs]
    · have hnone : '\n' ∉ [c] := fun h => hc (List.mem_singleton.mp h).symm
      refine ⟨ls, hls, by rw [List.count_append, List.count_eq_zero.mpr hnone, hlength]; rfl, ?_, ?_⟩
      · rw [lastLine_append hnone]
        exact fun h => (List.mem_append.mp h).elim hlast hnone
      · rw [lastLine_append hnone, ← List.append_assoc, ← hcs]

/-- Lines with their line feeds are split off. -/
theorem splitOn_lines {ls : List (List Char)} (h : ∀ l ∈ ls, '\n' ∉ l) (cs : List Char) :
    (ls.flatMap (· ++ ['\n']) ++ cs).splitOn '\n' = ls ++ cs.splitOn '\n' := by
  induction ls with
  | nil => rfl
  | cons l ls ih =>
    obtain ⟨hl, hls⟩ := List.forall_mem_cons.mp h
    have hnone : ∀ c ∈ l, (c == '\n') = false := fun c hc => beq_false_of_ne fun heq => hl (heq ▸ hc)
    rw [List.flatMap_cons, List.append_assoc, List.append_assoc, List.singleton_append, List.splitOn_eq_splitOnP,
      List.splitOnP_append_cons_of_forall_mem hnone _ rfl, ← List.splitOn_eq_splitOnP, ih hls, List.cons_append]

/-- What stands in front of the first line feed begins the first line. -/
theorem splitOn_append {cs : List Char} (h : '\n' ∉ cs) (ds : List Char) :
    ∃ rest ls, (cs ++ ds).splitOn '\n' = (cs ++ rest) :: ls := by
  induction cs with
  | nil => exact List.exists_cons_of_ne_nil (List.splitOn_ne_nil _ _)
  | cons c cs ih =>
    rw [List.mem_cons, not_or] at h
    obtain ⟨rest, ls, hsplit⟩ := ih h.2
    refine ⟨rest, ls, ?_⟩
    rw [List.splitOn_eq_splitOnP] at hsplit ⊢
    rw [List.cons_append, List.splitOnP_cons_eq_if_modifyHead, if_neg (by simpa using Ne.symm h.1), hsplit]
    rfl

/-! ## Order and offsets -/

/-- With more characters in front, a position is later. -/
theorem place_lt {source : String} {a b : Nat} (ha : String.Pos.Raw.IsValid source ⟨a⟩) (hb : String.Pos.Raw.IsValid source ⟨b⟩)
    (h : a < b) : (ofOffset source a).place < (ofOffset source b).place := by
  obtain ⟨front, back, hsource, rfl⟩ := exists_front ha
  obtain ⟨front', back', hsource', rfl⟩ := exists_front hb
  -- the text in front of the later offset goes on where that in front of the other ends
  obtain ⟨between, rfl⟩ : front <+: front' := by
    refine (List.prefix_or_prefix_of_prefix ⟨back, hsource.symm⟩ ⟨back', hsource'.symm⟩).resolve_right ?_
    rintro ⟨cs, rfl⟩
    rw [String.utf8Len_append] at h
    omega
  have hsome : between ≠ [] := by
    rintro rfl
    rw [List.append_nil] at h
    exact Nat.lt_irrefl _ h
  obtain ⟨hline, hcolumn⟩ := ofOffset_front hsource
  obtain ⟨hline', hcolumn'⟩ := ofOffset_front hsource'
  rw [place, place, Prod.Lex.toLex_lt_toLex, hline, hline', hcolumn, hcolumn', List.count_append]
  by_cases hfeed : '\n' ∈ between
  · have hcount := List.count_pos_iff.mpr hfeed
    exact .inl (by omega)
  · have hlength := List.length_pos_iff.mpr hsome
    rw [lastLine_append hfeed, List.length_append, List.count_eq_zero.mpr hfeed]
    exact .inr ⟨rfl, by omega⟩

/-- The lines in front of a line are passed over, and the characters in front of a column. -/
theorem offsetAt?_of_lines {source : String} {ls more : List (List Char)} {cs rest : List Char}
    (h : source.toList.splitOn '\n' = ls ++ (cs ++ rest) :: more) :
    offsetAt? source (ls.length + 1) (cs.length + 1) = some (utf8Len (ls.flatMap (· ++ ['\n']) ++ cs)) := by
  have hline : (ls ++ (cs ++ rest) :: more)[ls.length]? = some (cs ++ rest) := by simp
  have hcolumn : cs.length ≤ (cs ++ rest).length := by simp
  rw [offsetAt?, h]
  simp only [hline, Option.bind_eq_bind, Option.bind_some, if_pos hcolumn, List.take_left, String.utf8Len_append]
  rfl

/-- A line and a column lead back to the offset they were made from. -/
theorem offsetAt?_ofOffset {source : String} {offset : Nat} (h : String.Pos.Raw.IsValid source ⟨offset⟩) :
    offsetAt? source (ofOffset source offset).line (ofOffset source offset).column = some offset := by
  obtain ⟨front, back, hsource, rfl⟩ := exists_front h
  obtain ⟨hline, hcolumn⟩ := ofOffset_front hsource
  obtain ⟨ls, hls, hlength, hlast, hfront⟩ := exists_lines front
  obtain ⟨rest, more, hsplit⟩ := splitOn_append hlast back
  have hlines : source.toList.splitOn '\n' = ls ++ (lastLine front ++ rest) :: more := by
    rw [hsource, ← hsplit, ← splitOn_lines hls, ← List.append_assoc, ← hfront]
  rw [hline, hcolumn, ← hlength, offsetAt?_of_lines hlines, ← hfront]

/-- Offsets inside a character have the line and the column of its first byte. -/
theorem place_inside {source front back : String} {c : Char} {offset : Nat} (hsource : source = front ++ String.singleton c ++ back)
    (hfirst : front.utf8ByteSize ≤ offset) (hlast : offset < front.utf8ByteSize + c.utf8Size) :
    (ofOffset source offset).place = (ofOffset source front.utf8ByteSize).place := by
  have hchars : source.toList = front.toList ++ c :: back.toList := by
    rw [hsource, String.toList_append, String.toList_append, String.toList_singleton, List.append_assoc, List.singleton_append]
  have hsize : front.utf8ByteSize = utf8Len front.toList := by rw [← String.utf8ByteSize_ofList, String.ofList_toList]
  rw [hsize] at hfirst hlast ⊢
  obtain ⟨hline, hcolumn⟩ := ofOffset_prefix hchars hfirst fun d hd => by
    cases hd
    exact hlast
  obtain ⟨hline', hcolumn'⟩ := ofOffset_front hchars
  rw [place, place, hline, hline', hcolumn, hcolumn']

/-- A position is later if its offset is, and its line and its column lead back to the offset. Offsets behind the end have the position of
the end, and those inside a character the line and the column of that character. -/
theorem ofOffset_embeds (source : String) :
    (∀ a b, String.Pos.Raw.IsValid source ⟨a⟩ → String.Pos.Raw.IsValid source ⟨b⟩ → a < b →
      (ofOffset source a).place < (ofOffset source b).place) ∧
    (∀ offset, String.Pos.Raw.IsValid source ⟨offset⟩ →
      offsetAt? source (ofOffset source offset).line (ofOffset source offset).column = some offset) ∧
    (∀ offset, source.utf8ByteSize ≤ offset → ofOffset source offset = ofOffset source source.utf8ByteSize) ∧
    ∀ front c back offset, source = front ++ String.singleton c ++ back → front.utf8ByteSize ≤ offset →
      offset < front.utf8ByteSize + c.utf8Size → (ofOffset source offset).place = (ofOffset source front.utf8ByteSize).place := by
  refine ⟨fun _ _ => place_lt, fun _ => offsetAt?_ofOffset, fun offset h => ?_, fun _ _ _ _ => place_inside⟩
  rw [ofOffset, ofOffset, Nat.min_eq_right h, Nat.min_self]

/-- A character of two bytes, an empty line and a line feed at the end. -/
theorem ofOffset_embeds_feeds : (ofOffset "é\n\nab\n" 2).place < (ofOffset "é\n\nab\n" 7).place ∧
    (ofOffset "é\n\nab\n" 7).line = 4 ∧ (ofOffset "é\n\nab\n" 7).column = 1 ∧ offsetAt? "é\n\nab\n" 4 1 = some 7 ∧
      ofOffset "é\n\nab\n" 9 = ofOffset "é\n\nab\n" 7 ∧ (ofOffset "é\n\nab\n" 1).place = (ofOffset "é\n\nab\n" 0).place := by
  have hfirst : String.Pos.Raw.IsValid "é\n\nab\n" ⟨2⟩ :=
    String.Pos.Raw.isValid_iff_exists_append.mpr ⟨"é", "\n\nab\n", by decide, rfl⟩
  have hend : String.Pos.Raw.IsValid "é\n\nab\n" ⟨7⟩ := String.Pos.Raw.isValid_rawEndPos
  obtain ⟨horder, hback, hpast, hinside⟩ := ofOffset_embeds "é\n\nab\n"
  exact ⟨horder 2 7 hfirst hend (by decide), by decide, by decide, hback 7 hend, hpast 9 (by decide),
    hinside "" 'é' "\n\nab\n" 1 (by decide) (by decide) (by decide)⟩

end QueryStubs.Position
