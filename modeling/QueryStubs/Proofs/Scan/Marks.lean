import QueryStubs.Proofs.Parsed
import QueryStubs.Proofs.Syntax.Lexical
import QueryStubs.Proofs.Views.Rows
import QueryStubs.Proofs.Written.Source

/-!
# How tokens are spelled

The kind of a mark tells its text, and a token of kind `name` is a name (`Token.Spelled`). Both hold of the tokens of every source
(`Token.spelled_of_scan`) and, since no leaf of a tree is made up, of the leaves of its tree (`Parsed.spelled_of_leaf`).
-/

namespace QueryStubs

/-- The text that every token of a kind has, where there is one. -/
def TokenKind.spelling? : TokenKind → Option String
  | .parenOpen => some "("
  | .parenClose => some ")"
  | .braceOpen => some "\x7b"
  | .braceClose => some "\x7d"
  | .bracketOpen => some "["
  | .bracketClose => some "]"
  | .comma => some ","
  | .semicolon => some ";"
  | .colonEquals => some ":="
  | .colon => some ":"
  | .equals => some "="
  | .dollar => some "$"
  | .question => some "?"
  | .star => some "*"
  | .plus => some "+"
  | .doubleQuote => some "\x22"
  | .singleQuote => some "'"
  | _ => none

/-- A token is spelled as its kind says. -/
structure Token.Spelled (t : Token) : Prop where
  mark : ∀ text ∈ t.kind.spelling?, t.text = text
  name : t.kind = .name → IsNCName t.text

/-- A token of a kind that says nothing is spelled as it may be. -/
theorem Token.spelled_of_other {kind : TokenKind} (hs : kind.spelling? = none) (hn : kind ≠ .name) (text : String) : Spelled ⟨kind, text⟩ :=
  ⟨by simp [hs], fun h => absurd h hn⟩

/-- A token with the text of its kind is spelled so. -/
theorem Token.spelled_of_mark {kind : TokenKind} {text : String} (hs : kind.spelling? = some text) (hn : kind ≠ .name) :
    Spelled ⟨kind, text⟩ :=
  ⟨fun _ hm => Option.some.inj (hs.symm.trans hm), fun h => absurd h hn⟩

/-- The marks by themselves are spelled so. -/
theorem Token.spelled_of_markKind {c : Char} {kind : TokenKind} (h : markKind c = some kind) : Spelled ⟨kind, String.ofList [c]⟩ := by
  unfold markKind at h
  split at h <;> cases h <;> exact spelled_of_mark rfl nofun

/-- A first piece that starts as a name goes on as names do. -/
theorem Piece.isNCName_of_start {c : Char} (cs : List Char) (hc : isNameStart c = true) :
    IsNCName (String.ofList (c :: cs.takeWhile isNameChar)) := by
  unfold IsNCName isNCName
  simp only [String.toList_ofList, hc, Bool.true_and]
  exact List.all_takeWhile

/-- The pieces of a text that are a single token are spelled as their kinds say. -/
theorem Piece.spelled_of_cut {c : Char} {cs text : List Char} {kind : TokenKind} (h : (cut c cs).1 = .plain kind text) :
    Token.Spelled ⟨kind, String.ofList text⟩ := by
  unfold cut at h
  split at h
  · next hstart =>
    cases h
    exact ⟨nofun, fun _ => isNCName_of_start cs hstart⟩
  repeat' split at h
  all_goals first | (cases h; exact Token.spelled_of_other (by rfl) (by decide) _) | (cases h; exact Token.spelled_of_mark (by rfl) (by decide)) | cases h
  exact Token.spelled_of_markKind ‹_›

/-- The tokens of a text are spelled as their kinds say. -/
theorem Token.spelled_of_scan (cs : List Char) : ∀ t ∈ scan cs, t.Spelled :=
  forall_scan (fun _ _ _ _ => Piece.spelled_of_cut) (fun q => by cases q <;> exact spelled_of_mark rfl nofun)
    (spelled_of_other rfl nofun) (spelled_of_other rfl nofun) cs

/-- What holds of the tokens of a source and of all keywords holds of the leaves of its tree. -/
theorem Parsed.forall_leaf {source : String} {P : Token → Prop} (hscan : ∀ t ∈ Token.ofSource source, P t)
    (hkeyword : ∀ t : Token, t.kind = .keyword → P t) : ∀ t ∈ (ofSource source).tree.leaves, P t := by
  intro t ht
  obtain ⟨u, hu, hrec⟩ := forall₂_mem (recorded_leaves source).flip t ht
  rcases hrec with rfl | ⟨-, rfl⟩
  · exact hscan _ hu
  · exact hkeyword _ rfl

/-- The leaves of a tree are spelled as their kinds say. -/
theorem Parsed.spelled_of_leaf (source : String) : ∀ t ∈ (ofSource source).tree.leaves, t.Spelled :=
  forall_leaf (Token.spelled_of_scan _) fun t ht => ⟨by simp [ht, TokenKind.spelling?], fun h => by simp [ht] at h⟩

end QueryStubs
