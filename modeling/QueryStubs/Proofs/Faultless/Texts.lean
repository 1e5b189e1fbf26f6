import QueryStubs.Proofs.Faultless.Signatures
import QueryStubs.Proofs.Views.Names
import QueryStubs.Proofs.Written.Tokens

/-!
# What is read is what is written

A name and a sequence type that are read from what a form makes are written as the tokens that are meant there, put end to end:
`Node.name_written`, `Node.type_written`. So the written form of a type is the text of its node without blanks and comments, although the
one is printed from its parts and the other is copied from the source.

Of two of the item types more is said (`ItemType.WrittenAs`): the name of an atomic type is a name, and in a kind test the keyword comes first,
then a pair of parentheses, and those between them are balanced.
-/

namespace QueryStubs

open Grammar (Form Balanced leavesFor)
open QueryStubs.Tree (constructs meantOf)

/-- Tokens that an item type is written with. -/
structure ItemType.WrittenAs (i : ItemType) (ts : List Token) : Prop where
  text : Token.textOf ts = i.text
  name : ∀ q, i = .atomic q → q.Writable
  test : ∀ test text, i = .kindTest test text → ∃ word opening inner closing,
    ts = word :: opening :: (inner ++ [closing]) ∧ word.text = test.keyword ∧ opening.kind = .parenOpen ∧ closing.kind = .parenClose ∧
      Balanced .parenOpen .parenClose (inner.map (·.kind))

/-- Tokens that a sequence type is written with: those of its item type and those of its mark, which `empty-sequence()` has not. -/
structure SequenceType.WrittenAs (t : SequenceType) (ts : List Token) : Prop where
  parts : ∃ item mark, ts = item ++ mark ∧ t.item.WrittenAs item ∧ Token.textOf mark = t.occurrence.indicator
  unmarked : t.item = .emptySequence → t.occurrence = .exactlyOne

/-- The written form of a sequence type is the text of its tokens. -/
theorem SequenceType.WrittenAs.text {t : SequenceType} {ts : List Token} (h : t.WrittenAs ts) : Token.textOf ts = t.text := by
  obtain ⟨item, mark, rfl, hitem, hmark⟩ := h.parts
  rw [Token.textOf_append, hitem.text, hmark, SequenceType.text]

/-- The mark of an occurrence is spelled as it is. -/
theorem Occurrence.indicator_of_ofIndicator? {mark : String} {o : Occurrence} (h : ofIndicator? mark = some o) : o.indicator = mark := by
  unfold ofIndicator? at h
  repeat' split at h
  all_goals cases h
  all_goals exact Eq.symm ‹_›

/-- The keyword of a kind test is the word that it was found by. -/
theorem KindTest.keyword_of_ofKeyword? {word : String} {k : KindTest} (h : ofKeyword? word = some k) : k.keyword = word :=
  of_decide_eq_true (List.find?_some (p := fun k : KindTest => decide (k.keyword = word)) h)

namespace Node

variable {n : Node}

/-- The text of a node without its trivia is that of the tokens meant. -/
theorem compactText_eq (n : Node) : n.compactText = Token.textOf (meantOf n.children) := rfl

/-- A name is written as the tokens it was read from. -/
theorem name_written (h : NameMade n.children) (hs : n.Spelled) {q : QName} (hq : n.toQName? = some q) :
    Token.textOf (meantOf n.children) = q.text := by
  have hnone : ∀ {w : List Token}, Token.AllTrivia w → w.filter (·.kind = .name) = [] :=
    fun hw => List.filter_eq_nil_iff.mpr fun u hu hk => hw.kind_ne rfl u hu (of_decide_eq_true hk)
  rcases h.1 with ⟨w, t, v, u, hw, ht, hv, hu, hts⟩ | ⟨w, t, hw, ht, -, hts⟩
  · have hnames : n.nameTexts = [t.text, u.text] := by
      rw [nameTexts, tokens_eq, hts]
      simp [Tree.ownTokens, hnone hw, ht, hv, hu]
    have hcolon : v.text = ":" := (hs v (by simp [leaves, hts, Tree.leavesOf])).mark _ (by rw [hv]; rfl)
    have hq : q = ⟨some t.text, u.text⟩ := by simpa [toQName?, localPart?, qualifier?, hnames] using hq.symm
    rw [hts, hq]
    simp [Tree.meantOf_trivia hw, Tree.meantOf_leaf (Token.isTrivia_eq_false ht rfl), Tree.meantOf_leaf (Token.isTrivia_eq_false hv rfl),
      Tree.meantOf_leaf (Token.isTrivia_eq_false hu rfl), QName.text, hcolon, String.append_assoc]
  · have ht : t.kind = .name := of_decide_eq_true ht
    have hnames : n.nameTexts = [t.text] := by
      rw [nameTexts, tokens_eq, hts]
      simp [Tree.ownTokens, hnone hw, ht]
    have hq : q = ⟨none, t.text⟩ := by simpa [toQName?, localPart?, qualifier?, hnames] using hq.symm
    rw [hts, hq]
    simp [Tree.meantOf_trivia hw, Tree.meantOf_leaf (Token.isTrivia_eq_false ht rfl), QName.text]

/-- All tokens of a name are meant. -/
theorem leaves_of_name (h : NameMade n.children) : n.leaves = meantOf n.children := by
  obtain ⟨⟨w, t, v, u, hw, ht, hv, hu, hts⟩ | ⟨w, t, hw, ht, -, hts⟩, hb⟩ := h
  · have hw : w = [] := (hts ▸ hb).eq_nil hw
    rw [leaves, hts, hw, meantOf]
    simp [leavesFor, Tree.leavesOf, Token.isTrivia_eq_false ht rfl, Token.isTrivia_eq_false hv rfl, Token.isTrivia_eq_false hu rfl]
  · have hw : w = [] := (hts ▸ hb).eq_nil hw
    rw [leaves, hts, hw, meantOf]
    simp [leavesFor, Tree.leavesOf, Token.isTrivia_eq_false (of_decide_eq_true ht) rfl]

/-- A qualified name that comes first in a row is the name of its node, and is written as its tokens. -/
theorem qname_written {us : List Tree} (hc : (constructs n.children).find? (·.1 = .qname) = some (.qname, us))
    (hus : NameMade us) (hs : n.Spelled) {m : Node} {q : QName} (hm : n.qname? = some m)
    (hq : m.toQName? = some q) : m.children = us ∧ Token.textOf (meantOf us) = q.text := by
  have hchildren : m.children = us := by
    have hfind := find?_of_child? hm
    rw [hc] at hfind
    simpa using hfind.symm
  refine ⟨hchildren, ?_⟩
  rw [← hchildren] at hus ⊢
  exact name_written hus (hs.of_child? hm) hq

/-- A word with an empty pair of parentheses is written so. -/
theorem parens_written {word : String} (h : ParensMade word n.children) (hs : n.Spelled) :
    Token.textOf (meantOf n.children) = word ++ "()" := by
  obtain ⟨us, _, hts, hword, vs, ws, rfl, hopen, hclose⟩ := h
  obtain ⟨t, -, ht, hus⟩ := hword.meant_keyword
  obtain ⟨u, hu, hvs⟩ := hopen.meant_mark rfl
  obtain ⟨v, hv, hws⟩ := hclose.meant_mark rfl
  have hmeant : meantOf n.children = [t, u, v] := by simp [hts, hus, hvs, hws]
  have hleaf : ∀ t ∈ meantOf n.children, t.Spelled := fun t ht => hs t (List.mem_filter.mp ht).1
  simp only [hmeant, List.forall_mem_cons] at hleaf
  obtain ⟨-, hu', hv', -⟩ := hleaf
  have hu' := hu'.mark "(" (by rw [hu]; rfl)
  have hv' := hv'.mark ")" (by rw [hv]; rfl)
  rw [hmeant]
  simp [List.mem_singleton.mp ht, hu', hv']

/-- An item type is written as the tokens it was read from. -/
theorem item_written (h : ItemMade n.kind n.children) (hs : n.Spelled) {i : ItemType} (hi : n.toItemType? = some i) :
    i.WrittenAs (meantOf n.children) := by
  rcases h with ⟨hk, h⟩ | (⟨hk, h⟩ | ⟨hk, h⟩) | ⟨hk, h⟩
  · obtain ⟨us, hc, hus⟩ := h.node
    simp only [toItemType?, hk, Option.bind_eq_bind, Option.bind_eq_some_iff] at hi
    obtain ⟨m, hm, q, hq, hi⟩ := hi
    cases hi
    obtain ⟨-, htext⟩ := qname_written (by rw [hc]; rfl) hus hs hm hq
    exact ⟨by rw [h.meant_node hc, htext]; rfl, fun _ he => ItemType.atomic.inj he ▸ (hs.of_child? hm).toQName? hq, by simp⟩
  · simp only [toItemType?, hk, Option.some.injEq] at hi
    exact hi ▸ ⟨parens_written h hs, by simp, by simp⟩
  · simp only [toItemType?, hk, Option.some.injEq] at hi
    exact hi ▸ ⟨parens_written h hs, by simp, by simp⟩
  · obtain ⟨t, us, hkeyword, -, ⟨os, _, rfl, hopen, ws, cs, rfl, ⟨w, hw, rfl⟩, hclose⟩, hmeant⟩ := testKeyword_of_makes h
    obtain ⟨u, hu, hos⟩ := hopen.meant_mark rfl
    obtain ⟨v, hv, hcs⟩ := hclose.meant_mark rfl
    simp only [toItemType?, hk, Option.bind_eq_bind, hkeyword, Option.bind_some, Option.bind_eq_some_iff] at hi
    obtain ⟨k, hof, hi⟩ := hi
    cases hi
    refine ⟨rfl, by simp, fun test text he => ?_⟩
    cases he
    refine ⟨t, u, w.filter (!·.isTrivia), v, ?_, (KindTest.keyword_of_ofKeyword? hof).symm, hu, hv, hw⟩
    rw [hmeant, Tree.meantOf_append, Tree.meantOf_append, hos, hcs, Tree.meantOf_leavesFor]
    rfl

/-- The mark behind an item type is written as the occurrence it was read as, and where there is none, one item is meant. -/
theorem occurrence_written {marks : List Tree} (h : Form.occurrence.Makes marks)
    (hc : (constructs n.children).find? (·.1 = .occurrence) = (constructs marks).find? (·.1 = .occurrence)) {o : Occurrence}
    (ho : n.toOccurrence? = some o) : Token.textOf (meantOf marks) = o.indicator ∧ (marks = [] → o = .exactlyOne) := by
  unfold toOccurrence? at ho
  rcases h with h | h
  · obtain ⟨us, hmark, ⟨w, t, hw, ht, -, hus⟩, hb⟩ := h.node
    rw [hmark] at hc
    obtain ⟨m, hm, hchildren⟩ := child?_of_find hc
    have hw : w = [] := (hus ▸ hb).eq_nil hw
    have hleaves : m.leaves = [t] := by simp [leaves, hchildren, hus, hw, leavesFor, Tree.leavesOf]
    rw [hm] at ho
    have ho : Occurrence.ofIndicator? t.text = some o := by simpa [hleaves] using ho
    have htrivia : t.isTrivia = false := by
      cases hk : t.kind <;> simp_all [Token.isTrivia, TokenKind.isTrivia, TokenKind.isOccurrence]
    refine ⟨?_, fun hnil => by simp [hnil] at hmark⟩
    rw [h.meant_node hmark, hus, hw, Occurrence.indicator_of_ofIndicator? ho]
    simp [leavesFor, Tree.meantOf_leaf htrivia]
  · obtain rfl : marks = [] := h
    have hnone : n.child? .occurrence = none := Option.map_eq_none_iff.mp ((child?_eq .occurrence n).trans hc)
    rw [hnone] at ho
    cases ho
    exact ⟨rfl, fun _ => rfl⟩

/-- A sequence type is written as the tokens it was read from. -/
theorem type_written (h : Form.itemType.Makes n.children) (hs : n.Spelled) {t : SequenceType} (ht : n.toSequenceType? = some t) :
    t.WrittenAs (meantOf n.children) := by
  obtain ⟨kind, us, marks, hc, hmeant, hitem, hmarks, hempty⟩ := constructs_of_itemType h
  obtain ⟨⟨m, hm, rfl, rfl⟩, hfind⟩ := itemType_of_made hc hitem
  simp only [toSequenceType?, Option.bind_eq_bind, hm, Option.bind_some, Option.bind_eq_some_iff] at ht
  obtain ⟨i, hi, o, ho, ht⟩ := ht
  cases ht
  obtain ⟨hmark, hnone⟩ := occurrence_written hmarks hfind ho
  refine ⟨⟨_, _, hmeant, item_written hitem (hs.of_mem (List.mem_of_find?_eq_some hm)) hi, hmark⟩, fun hi' => hnone (hempty ?_)⟩
  -- Only a node of this kind is read as the empty sequence.
  obtain rfl : i = .emptySequence := hi'
  unfold toItemType? at hi
  split at hi
  · simp [Option.bind_eq_some_iff] at hi
  · simp [Option.bind_eq_some_iff] at hi
  · cases hi
  · next hk => exact hk
  · cases hi

/-- Where a type is declared, it is written as the tokens it was read from. -/
theorem declared_written (h : ∀ us, (.typeDecl, us) ∈ constructs n.children → TypeMade us) (hs : n.Spelled) {t : Option SequenceType}
    (ht : n.toDeclaredType? = some t) :
    Option.Rel (fun (m : Node) (t : SequenceType) => t.WrittenAs (meantOf m.children)) (n.typeDecl?.bind sequenceType?) t := by
  unfold toDeclaredType? at ht
  cases hm : n.typeDecl? with
  | none =>
    rw [hm] at ht
    cases ht
    exact .none
  | some m =>
    obtain ⟨k, hk, hmakes⟩ := sequenceType_of_made (h m.children (List.mem_of_find?_eq_some (find?_of_child? hm)))
    have hspelled : k.Spelled := (hs.of_child? hm).of_child? hk
    simp only [hm, hk, Option.bind_eq_bind, Option.bind_some, Option.bind_eq_some_iff] at ht ⊢
    obtain ⟨ty, hty, ht⟩ := ht
    cases ht
    exact .some (type_written hmakes hspelled hty)

end Node

end QueryStubs
