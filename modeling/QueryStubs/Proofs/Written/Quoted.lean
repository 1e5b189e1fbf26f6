import QueryStubs.Proofs.Written.Source
import QueryStubs.Text.Literal

/-!
# Texts in quotation marks

A text is written as a string literal in either quotation mark, with that mark doubled in it (`Quoted.source`). Whatever characters are in
the text, the literal ends where it was meant to (`Piece.literalBody_doubled`) and stands for the text (`Text.collapse_doubled`).
-/

namespace QueryStubs

namespace Text

/-- Characters with every occurrence of one of them doubled. -/
def doubled (q : Char) : List Char → List Char
  | [] => []
  | c :: cs => if c = q then q :: q :: doubled q cs else c :: doubled q cs

theorem doubled_mark (q : Char) (cs : List Char) : doubled q (q :: cs) = q :: q :: doubled q cs := if_pos rfl

theorem doubled_other {q c : Char} (h : c ≠ q) (cs : List Char) : doubled q (c :: cs) = c :: doubled q cs := if_neg h

/-- Only of no characters there is nothing to write. -/
theorem doubled_eq_nil {q : Char} {cs : List Char} : doubled q cs = [] ↔ cs = [] := by
  cases cs with
  | nil => exact ⟨fun _ => rfl, fun _ => rfl⟩
  | cons c cs =>
    refine ⟨fun h => ?_, fun h => nomatch h⟩
    unfold doubled at h
    split at h <;> cases h

/-- Quotation marks are doubled as any character is. -/
theorem double_eq (cs : List Char) : double cs = doubled '\x22' cs := by
  induction cs with
  | nil => rfl
  | cons c cs ih =>
    unfold double doubled
    rw [ih]
    split
    · next h => rw [h]
    · rfl

/-- A literal stands for the text it was written for. -/
theorem collapse_doubled (q : Char) (cs : List Char) : collapse q (doubled q cs) = cs := by
  induction cs with
  | nil => rfl
  | cons c cs ih =>
    by_cases hc : c = q
    · subst hc
      rw [doubled_mark, collapse, if_pos ⟨rfl, rfl⟩, ih]
    · rw [doubled_other hc]
      cases hcs : doubled q cs with
      | nil =>
        rw [hcs] at ih
        rw [← ih]
        rfl
      | cons d ds =>
        rw [hcs] at ih
        rw [collapse, if_neg fun h => hc h.1, ih]

end Text

/-- The body of a written literal ends at the mark behind it, unless another mark follows. -/
theorem Piece.literalBody_doubled {q : Char} (cs : List Char) {rest : List Char} (h : rest.head? ≠ some q) :
    literalBody q (Text.doubled q cs ++ q :: rest) = some (Text.doubled q cs, rest) := by
  induction cs with
  | nil =>
    have hnone : Text.doubled q [] = [] := rfl
    rw [hnone, List.nil_append]
    cases rest with
    | nil => exact if_pos rfl
    | cons d ds =>
      have hd : d ≠ q := fun he => h (congrArg some he)
      rw [literalBody, if_pos rfl, if_neg hd]
  | cons c cs ih =>
    by_cases hc : c = q
    · subst hc
      rw [Text.doubled_mark, List.cons_append, List.cons_append, literalBody, if_pos rfl, if_pos rfl, ih]
    · rw [Text.doubled_other hc, List.cons_append]
      generalize hr : Text.doubled q cs ++ q :: rest = r at ih
      cases r with
      | nil => simp at hr
      | cons d ds => rw [literalBody, if_neg hc, ih, Option.map_some]

/-- A quotation mark starts a literal, or nothing if there is no mark that ends one. -/
theorem Piece.cut_quote (q : Quote) (cs : List Char) : cut q.char cs =
    match literalBody q.char cs with
    | some (body, rest) => (.literal q body, rest)
    | none => (.stray (q.char :: cs), []) := by
  cases q <;> rfl

/-- A text and the mark it is written in. -/
structure Quoted where
  quote : Quote
  text : String
  deriving DecidableEq, Repr

/-- The string literal: the mark, the text with each such mark in it doubled, and the mark again. -/
def Quoted.source (l : Quoted) : String :=
  l.quote.char.toString ++ String.ofList (Text.doubled l.quote.char l.text.toList) ++ l.quote.char.toString

/-- A word and a literal, if there is a text for it, with spaces in front of both. -/
def Quoted.clause (word : String) : Option Quoted → String
  | none => ""
  | some l => " " ++ word ++ " " ++ l.source

/-- A literal in double marks is one of the two. -/
theorem literalSource_eq (s : String) : literalSource s = Quoted.source ⟨.double, s⟩ := by
  unfold literalSource
  rw [Text.double_eq]
  rfl

theorem clauseSource_eq (word : String) (s : Option String) : clauseSource word s = Quoted.clause word (s.map (.mk .double)) := by
  cases s with
  | none => rfl
  | some s => rw [clauseSource, literalSource_eq, Option.map_some, Quoted.clause]

end QueryStubs
