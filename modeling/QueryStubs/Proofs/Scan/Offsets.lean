import Mathlib.Data.String.Basic
import QueryStubs.Grammar.Offset
import QueryStubs.Proofs.Reader.Source

/-!
# Places in a source

A range of a source cuts a text out of it (`Span.Cuts`); the range of a token cuts its text (`Token.cuts_textOf`). In a source that is
`Addressable` the end of no token is beyond the offsets of 32 bits. So the tokens are found again at their ranges (`Token.wrapped?_eq`), and
the source is read as it is without a bound (`Parsed.wrapped?_eq`).
-/

namespace QueryStubs

/-! ## Slices -/

/-- A range of a source: characters begin or end at its two ends, and what is between them is the text. -/
structure Span.Cuts (source : String) (span : Span) (text : String) : Prop where
  start_valid : String.Pos.Raw.IsValid source ⟨span.start⟩
  stop_valid : String.Pos.Raw.IsValid source ⟨span.stop⟩
  extract_eq : String.Pos.Raw.extract source ⟨span.start⟩ ⟨span.stop⟩ = text

/-- The range that a text takes between two others. -/
theorem Span.cuts_append (before text after : String) :
    Cuts (before ++ text ++ after) ⟨before.utf8ByteSize, before.utf8ByteSize + text.utf8ByteSize⟩ text := by
  refine ⟨?_, ?_, ?_⟩
  · exact String.Pos.Raw.isValid_iff_exists_append.mpr ⟨before, text ++ after, String.append_assoc .., rfl⟩
  · exact String.Pos.Raw.isValid_iff_exists_append.mpr ⟨before ++ text, after, rfl, by simp [String.rawEndPos]⟩
  · have h := String.extract_of_valid before.toList text.toList after.toList
    simpa only [String.ofList_append, String.ofList_toList, ← String.utf8ByteSize_ofList] using h

/-- What a range cuts out of a source is what is read there. -/
theorem Span.Cuts.read? {source text : String} {s : Span} (h : s.Cuts source text) : s.read? source = some text := by
  have hstart := String.Pos.Raw.isValid_eq_true_iff.mpr h.start_valid
  have hstop := String.Pos.Raw.isValid_eq_true_iff.mpr h.stop_valid
  rw [Span.read?, hstart, hstop, h.extract_eq]
  rfl

namespace Token

/-- The range that tokens take within a row of tokens. -/
theorem cuts_textOf (before ts after : List Token) :
    Span.Cuts (textOf (before ++ ts ++ after)) ⟨sizeOf before, sizeOf before + sizeOf ts⟩ (textOf ts) := by
  simpa only [textOf_append, sizeOf_eq] using Span.cuts_append (textOf before) (textOf ts) (textOf after)

/-- The range of a token within a row of tokens. -/
theorem cuts_token (before : List Token) (t : Token) (after : List Token) :
    Span.Cuts (textOf (before ++ t :: after)) ⟨sizeOf before, sizeOf before + t.size⟩ t.text := by
  simpa [textOf] using cuts_textOf before [t] after

end Token

/-! ## Offsets of 32 bits -/

/-- An offset that fits into 32 bits is held as it is. -/
theorem wrap_of_lt {n : Nat} (h : n < UInt32.size) : wrap n = n := UInt32.toNat_ofNat_of_lt h

/-- So is a range that ends at one, if it does not end before it starts. -/
theorem Span.wrapped?_of_lt {s : Span} (hs : s.start ≤ s.stop) (h : s.stop < UInt32.size) : s.wrapped? = some s := by
  rw [Span.wrapped?, wrap_of_lt (Nat.lt_of_le_of_lt hs h), wrap_of_lt h, if_pos hs]

namespace Token

/-- The tokens at the end of a short row keep their ranges and texts in 32 bits. -/
theorem wrappedFrom?_eq (before ts : List Token) (h : Addressable (textOf (before ++ ts))) :
    wrappedFrom? (textOf (before ++ ts)) (sizeOf before) ts = some (placed (sizeOf before) ts) := by
  induction ts generalizing before with
  | nil => rfl
  | cons t ts ih =>
    have hstop : sizeOf before + t.size < UInt32.size := by
      rw [Addressable, ← sizeOf_eq, sizeOf_append, sizeOf_cons] at h
      omega
    have hbehind : sizeOf (before ++ [t]) = sizeOf before + t.size := by simp [sizeOf_append]
    have hrest := ih (before ++ [t])
    rw [List.append_assoc, List.singleton_append, hbehind] at hrest
    rw [wrappedFrom?, Span.wrapped?_of_lt (Nat.le_add_right _ _) hstop, Option.bind_eq_bind, Option.bind_some,
      (cuts_token before t ts).read?, Option.bind_eq_bind, Option.bind_some, hrest h]
    rfl

/-- Within 32 bits the tokens of a source are found again at their ranges. -/
theorem wrapped?_eq {source : String} (h : Addressable source) : wrapped? source = some (placed 0 (ofSource source)) := by
  have hfrom := wrappedFrom?_eq [] (ofSource source)
  rw [List.nil_append, textOf_ofSource] at hfrom
  exact hfrom h

end Token

/-- Lexemes are cut from tokens with their ranges as they are from tokens alone. -/
theorem Lexeme.ofPlaced_placed (offset : Nat) (lead ts : List Token) : ofPlaced lead (Token.placed offset ts) = split offset lead ts := by
  fun_induction split offset lead ts with
  | case1 => rfl
  | case2 offset lead t ts ht ih => rw [Token.placed, ofPlaced, if_pos ht, ih]
  | case3 offset lead t ts ht lexemes tail he ih => rw [Token.placed, ofPlaced, if_neg ht, ih, he]

/-- Within 32 bits a reader starts as it does without a bound. -/
theorem Grammar.Cursor.wrapped?_eq {source : String} (h : Addressable source) : Cursor.wrapped? source = some (.start source) := by
  rw [Cursor.wrapped?, Token.wrapped?_eq h, Option.bind_eq_bind, Option.bind_some, Lexeme.ofPlaced_placed, wrap_of_lt h]
  rfl

/-- Within 32 bits a source is read as it is without a bound. -/
theorem Parsed.wrapped?_eq {source : String} (h : Addressable source) : wrapped? source = some (ofSource source) := by
  rw [wrapped?, Grammar.Cursor.wrapped?_eq h]
  rfl

end QueryStubs
