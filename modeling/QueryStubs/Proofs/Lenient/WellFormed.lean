import QueryStubs.Proofs.Faultless.Outlines
import QueryStubs.Proofs.Lenient.Prolog
import QueryStubs.Proofs.Opaque.Exchanged
import QueryStubs.Proofs.Scan.Parens
import QueryStubs.Proofs.Written.Scanned

/-!
# What is read from a broken source is well formed

A module is read from every source, and of the functions whose declarations are broken those are left out that lack a part. Nothing half read
is left in the others (`Parsed.functions_wellFormed`): their names are names, their types are whole, and their ranges are those of
declarations, one behind the other.

A function has a body only if everything in front of the body is complete (`Parsed.prologSigned`). So its signature is one that the form of
signatures makes, and what was proved of such signatures for sources without errors holds of it.
-/

namespace QueryStubs

open Grammar (Form Balanced leavesFor FunctionSigned)
open QueryStubs.Tree (constructs meantOf leavesOf)

/-! ## What well formed means -/

/-- The text of a kind test: its keyword and a parenthesis come first, a parenthesis comes last, and the last one is the first that leaves no
parenthesis open behind the first. -/
structure KindTest.Framed (test : KindTest) (text : String) : Prop where
  opens : (test.keyword ++ "(").toList <+: text.toList
  closes : [')'] <:+ text.toList
  balanced : Text.parenDepth text.toList = 0
  first : ∀ cs, cs <+: text.toList → test.keyword.length < cs.length → cs ≠ text.toList → 0 < Text.parenDepth cs

/-- A sequence type in which the name of an atomic type is a name, the empty sequence is not marked and the text of a kind test is framed. -/
structure SequenceType.WellFormed (t : SequenceType) : Prop where
  name : ∀ q, t.item = .atomic q → q.Writable
  unmarked : t.item = .emptySequence → t.occurrence = .exactlyOne
  test : ∀ test text, t.item = .kindTest test text → test.Framed text

/-- A function of a source: names are names, types are well formed, and the range is a part of the source that starts as a declaration. -/
structure FunctionDecl.WellFormed (source : String) (f : FunctionDecl) : Prop where
  name : f.name.Writable
  params : ∀ p ∈ f.params, p.name.Writable ∧ ∀ t ∈ p.type, t.WellFormed
  result : ∀ t ∈ f.returnType, t.WellFormed
  nonempty : f.span.start < f.span.stop
  inside : f.span.stop ≤ source.utf8ByteSize
  slice : ∃ text, f.span.Cuts source text ∧ "declare".toList <+: text.toList

/-! ## Kind tests -/

/-- A keyword, a parenthesis, characters that leave it open and a parenthesis frame a kind test. -/
theorem KindTest.framed (test : KindTest) {text : String} {inner : List Char} (h : Text.Passes ⟨none, 1⟩ inner ⟨none, 1⟩)
    (htext : text.toList = test.keyword.toList ++ '(' :: (inner ++ [')'])) : test.Framed text := by
  have hopened : ∀ cs : List Char, (test.keyword.toList ++ '(' :: cs).foldl Text.ParenState.after ⟨none, 0⟩ =
      cs.foldl Text.ParenState.after ⟨none, 1⟩ := by
    intro cs
    rw [List.foldl_append, Text.foldl_calm test.isNCName_keyword.calm]
    rfl
  refine ⟨?_, ?_, ?_, fun cs hcs hlength hne => ?_⟩
  · rw [htext, String.toList_append]
    exact ⟨inner ++ [')'], by simp⟩
  · rw [htext]
    exact ⟨test.keyword.toList ++ '(' :: inner, by simp⟩
  · rw [htext, Text.parenDepth, hopened, List.foldl_append, h.foldl_eq]
    rfl
  · -- What was read up to here goes beyond the parenthesis, and not to the last one.
    rw [htext] at hcs hne
    have hopening : test.keyword.toList ++ ['('] <+: test.keyword.toList ++ '(' :: (inner ++ [')']) := ⟨inner ++ [')'], by simp⟩
    obtain ⟨ds, rfl⟩ := List.prefix_of_prefix_length_le hopening hcs (by rw [List.length_append, String.length_toList]; exact hlength)
    have hds : ds <+: inner := by
      simp only [List.append_assoc, List.singleton_append, List.prefix_append_right_inj, List.cons_prefix_cons, true_and] at hcs
      refine (List.prefix_concat_iff.mp hcs).resolve_left fun he => hne ?_
      simp [he]
    rw [Text.parenDepth, List.append_assoc, List.singleton_append, hopened]
    exact h.depth_pos hds

/-! ## Where nodes stand -/

/-- No node in a row of trees stands before the row. -/
theorem Part.start_le (offset : Nat) (ts : List Tree) : ∀ m ∈ (ofTrees offset ts).filterMap node?, offset ≤ m.start := by
  induction ts generalizing offset with
  | nil => exact List.forall_mem_nil _
  | cons t ts ih =>
    cases t with
    | leaf t => exact fun m hm => Nat.le_trans (Nat.le_add_right ..) (ih _ m hm)
    | node kind us =>
      refine List.forall_mem_cons.mpr ⟨Nat.le_refl _, fun m hm => Nat.le_trans (Nat.le_add_right ..) (ih _ m hm)⟩

/-- The nodes in a row of trees stand one behind the other. -/
theorem Part.pairwise_nodes (offset : Nat) (ts : List Tree) :
    ((ofTrees offset ts).filterMap node?).Pairwise fun m k => m.span.stop ≤ k.span.start := by
  induction ts generalizing offset with
  | nil => exact .nil
  | cons t ts ih =>
    cases t with
    | leaf t => exact ih _
    | node kind us => exact (ih _).cons (start_le _ ts)

namespace Node

/-- The leaves of a node that another one holds are some of its leaves, in a row, and those in front tell where the node starts. -/
theorem Holds.leaves {n m : Node} (h : n.Holds m) :
    ∃ before after, n.leaves = before ++ (m.leaves ++ after) ∧ m.start = n.start + Token.sizeOf before := by
  induction h with
  | refl => exact ⟨[], [], by simp, rfl⟩
  | tail _ hm ih =>
    obtain ⟨before, after, hleaves, hstart⟩ := ih
    obtain ⟨front, back, hchildren, hplace⟩ := exists_behind hm
    refine ⟨before ++ leavesOf front, leavesOf back ++ after, ?_, ?_⟩
    · rw [hleaves, Node.leaves, hchildren]
      simp [Node.leaves, leavesOf]
    · rw [hplace, hstart, Token.sizeOf_append, Nat.add_assoc]

theorem Holds.spelled {n m : Node} (h : n.Holds m) (hs : n.Spelled) : m.Spelled := by
  obtain ⟨before, after, hleaves, -⟩ := h.leaves
  intro t ht
  exact hs t (by simp [hleaves, ht])

/-- A function holds its parameters. -/
theorem holds_param {n m : Node} (h : m ∈ n.params) : n.Holds m := by
  unfold params at h
  split at h
  · cases h
  · next list hlist => exact (Relation.ReflTransGen.single (List.mem_of_find?_eq_some hlist)).tail (List.mem_filter.mp h).1

/-- A declaration that a function was read from starts with a word, and its parameters and types are whole. -/
theorem signature_of_read {n : Node} (h : FunctionSigned n.children) {f : FunctionDecl} (hf : n.toFunctionDecl? = some f) :
    (∃ t ts, n.children = .leaf t :: ts ∧ t.text = "declare") ∧ (∀ m ∈ n.params, ParamMade m.children) ∧
      ∀ us, (.typeDecl, us) ∈ constructs n.children → TypeMade us := by
  rcases h with hnone | ⟨us, vs, hrow, hsignature, hbare, hbehind⟩
  · -- Without a body nothing is read.
    obtain ⟨body, hbody, -⟩ := (readsFunction hf).body
    have hmem : body.construct ∈ constructs n.children := n.constructs_eq ▸ List.mem_map_of_mem (List.mem_of_find?_eq_some hbody)
    have hkind : isFunctionBody body = true := List.find?_some hbody
    obtain ⟨henclosed, hexternal⟩ := hnone _ hmem
    simp [isFunctionBody, construct] at hkind henclosed hexternal
    exact absurd hkind (not_or.mpr ⟨henclosed, hexternal⟩)
  obtain ⟨names, params, types, hc, -, hparams, htypes⟩ := constructs_of_signature hsignature
  have hall : constructs n.children = (.qname, names) :: (.paramList, params) :: (types ++ constructs vs) := by
    rw [hrow, Tree.constructs_append, hc]
    rfl
  refine ⟨?_, (params_made (n := n) (by rw [hall]; rfl) hparams).2, fun ts hts => ?_⟩
  · obtain ⟨_, ws, rfl, ⟨_, _, rfl, ⟨w, t, hw, -, hword, rfl⟩, -⟩, -⟩ := hsignature
    have hw : w = [] := by
      simp only [List.append_assoc] at hbare
      exact hbare.eq_nil hw
    exact ⟨t, _, by rw [hrow, hw]; rfl, List.mem_singleton.mp hword⟩
  · rw [hall] at hts
    rcases List.mem_cons.mp hts with hts | hts
    · cases hts
    rcases List.mem_cons.mp hts with hts | hts
    · cases hts
    rcases List.mem_append.mp hts with hts | hts
    · exact (htypes _ hts).2
    · exact absurd (hbehind _ hts) (by simp [Grammar.kindsBehind])

end Node

namespace Parsed

variable {source : String} {n m : Node}

/-- The range of a node is the part of the source that the node was made from. -/
theorem cuts_of_holds (h : (ofSource source).root.Holds n) : n.span.Cuts source n.text ∧ n.span.stop ≤ source.utf8ByteSize := by
  obtain ⟨before, after, hleaves, hstart⟩ := h.leaves
  have hsource : Token.textOf (before ++ n.leaves ++ after) = source := by
    rw [List.append_assoc, ← hleaves, leaves_root]
    exact text_tree source
  have hroot : (ofSource source).root.start = 0 := by
    unfold root Node.ofTree
    split <;> rfl
  have hspan : n.span = ⟨Token.sizeOf before, Token.sizeOf before + Token.sizeOf n.leaves⟩ := by rw [Node.span, hstart, hroot, Nat.zero_add]
  rw [hspan]
  refine ⟨hsource ▸ Token.cuts_textOf before n.leaves after, ?_⟩
  rw [← hsource, ← Token.sizeOf_eq]
  simp

/-- The tokens that are meant by a node stand in a row among those of the source. -/
theorem meant_of_holds (h : (ofSource source).root.Holds n) :
    ∃ before after, (ofSource source).tree.leaves.filter (!·.isTrivia) = before ++ (meantOf n.children ++ after) := by
  obtain ⟨before, after, hleaves, -⟩ := h.leaves
  rw [leaves_root] at hleaves
  exact ⟨_, _, by rw [hleaves, List.filter_append, List.filter_append]; rfl⟩

/-- A type that is written with tokens of a source is well formed. -/
theorem wellFormed_of_writtenAs {t : SequenceType} {before ts after : List Token} (h : t.WrittenAs ts)
    (hts : (ofSource source).tree.leaves.filter (!·.isTrivia) = before ++ (ts ++ after)) : t.WellFormed := by
  obtain ⟨item, mark, rfl, hitem, -⟩ := h.parts
  refine ⟨hitem.name, h.unmarked, fun test text hi => ?_⟩
  obtain ⟨word, opening, inner, closing, rfl, hword, ho, hc, hb⟩ := hitem.test test text hi
  have hrow : (ofSource source).tree.leaves.filter (!·.isTrivia) = (before ++ [word]) ++ opening :: (inner ++ closing :: (mark ++ after)) := by
    simp [hts]
  have hspelled : ∀ t ∈ (ofSource source).tree.leaves.filter (!·.isTrivia), t.Spelled :=
    fun t ht => spelled_of_leaf source t (List.mem_filter.mp ht).1
  have hopening : opening.text = "(" := (hspelled opening (by simp [hrow])).mark _ (by rw [ho]; rfl)
  have hclosing : closing.text = ")" := (hspelled closing (by simp [hrow])).mark _ (by rw [hc]; rfl)
  have htext : text.toList = test.keyword.toList ++ '(' :: (Token.charsOf inner ++ [')']) := by
    have hchars : (Token.textOf (word :: opening :: (inner ++ [closing]))).toList = text.toList := by rw [hitem.text, hi, ItemType.text]
    rw [← hchars, Token.toList_textOf]
    simp [hword, hopening, hclosing]
  exact test.framed (passes_between hrow ho hc hb) htext

/-- The declared type of a parameter or a result is well formed. -/
theorem declared_wellFormed (hn : (ofSource source).root.Holds n) (h : ∀ us, (.typeDecl, us) ∈ constructs n.children → Node.TypeMade us)
    {declared : Option SequenceType} (hd : n.toDeclaredType? = some declared) : ∀ t ∈ declared, t.WellFormed := by
  rintro t rfl
  have hwritten := Node.declared_written h (hn.spelled (spelled_root source)) hd
  generalize hm : n.typeDecl?.bind Node.sequenceType? = found at hwritten
  cases hwritten with
  | @some m _ hwritten =>
    obtain ⟨decl, hdecl, hm⟩ := Option.bind_eq_some_iff.mp hm
    have hholds : (ofSource source).root.Holds m := (hn.tail (List.mem_of_find?_eq_some hdecl)).tail (List.mem_of_find?_eq_some hm)
    obtain ⟨before, after, hrow⟩ := meant_of_holds hholds
    exact wellFormed_of_writtenAs hwritten hrow

/-- A function that was read is well formed. -/
theorem function_wellFormed {f : FunctionDecl} (hf : f ∈ (ofSource source).module.functions) : f.WellFormed source := by
  obtain ⟨prolog, n, hprolog, hn, hread⟩ := exists_functionDecl hf
  obtain ⟨hname, hnames⟩ := names_writable hf
  obtain ⟨⟨t, ts, hfirst, hword⟩, hparams, htypes⟩ := Node.signature_of_read (prologSigned hprolog n hn) hread
  have hholds : (ofSource source).root.Holds n :=
    (Relation.ReflTransGen.single (List.mem_of_find?_eq_some hprolog)).tail (List.mem_filter.mp hn).1
  obtain ⟨hcuts, hstop⟩ := cuts_of_holds hholds
  have htext : n.text = "declare" ++ Token.textOf (leavesOf ts) := by
    rw [Node.text, Node.leaves, hfirst, leavesOf, Tree.leaves_leaf, List.singleton_append, Token.textOf_cons, hword]
  obtain ⟨-, hps, hresult, -, hspan⟩ := Node.readsFunction hread
  rw [← hspan] at hcuts hstop
  refine ⟨hname, fun p hp => ⟨hnames p hp, ?_⟩, declared_wellFormed hholds htypes hresult, ?_, hstop, n.text, hcuts, ?_⟩
  · obtain ⟨m, hm, hmp⟩ := mem_of_mapM_eq_some hps p hp
    exact declared_wellFormed (hholds.trans (Node.holds_param hm)) (Node.types_of_param (hparams m hm)) (Node.readsParam hmp).type
  · have hsize : n.span.stop = n.span.start + n.text.utf8ByteSize := by rw [Node.text, ← Token.sizeOf_eq]; rfl
    have hpos : "declare".utf8ByteSize = 7 := rfl
    rw [htext, String.utf8ByteSize_append] at hsize
    rw [hspan]
    omega
  · rw [htext, String.toList_append]
    exact ⟨_, rfl⟩

/-- The functions of a module that was read are well formed, whatever the source is, and their ranges stand one behind the other. Offsets of
32 bits are enough for that as long as they can tell the places of the source apart. -/
theorem functions_wellFormed {source : String} (h : Addressable source) :
    wrapped? source = some (ofSource source) ∧ (∀ f ∈ (ofSource source).module.functions, f.WellFormed source) ∧
      (ofSource source).module.functions.Pairwise fun f g => f.span.stop ≤ g.span.start := by
  refine ⟨wrapped?_eq h, fun f hf => function_wellFormed hf, ?_⟩
  change ((ofSource source).root.prolog?.elim [] fun p => p.functionDecls.filterMap Node.toFunctionDecl?).Pairwise _
  cases (ofSource source).root.prolog? with
  | none => exact .nil
  | some prolog =>
    refine List.pairwise_filterMap.mpr ?_
    have hnodes : prolog.functionDecls.Pairwise fun m k => m.span.stop ≤ k.span.start := (Part.pairwise_nodes _ _).filter _
    refine hnodes.imp fun h f hf g hg => ?_
    rw [(Node.readsFunction hf).span, (Node.readsFunction hg).span]
    exact h

set_option maxRecDepth 10000 in
/-- A function with a body that is not closed is read, and its type holds the parenthesis of a string. One without parameters is not read. -/
theorem functions_wellFormed_unclosed :
    Addressable "declare function f; declare function g($a as element(\x22(\x22)) \x7b" ∧
      FunctionDecl.WellFormed "declare function f; declare function g($a as element(\x22(\x22)) \x7b"
        ⟨⟨none, "g"⟩, [⟨⟨none, "a"⟩, some ⟨.kindTest .element "element(\x22(\x22)", .exactlyOne⟩⟩], none, .enclosed, ⟨20, 60⟩⟩ := by
  have h : Addressable "declare function f; declare function g($a as element(\x22(\x22)) \x7b" := by decide
  have hfunctions : (ofSource "declare function f; declare function g($a as element(\x22(\x22)) \x7b").module.functions =
      [⟨⟨none, "g"⟩, [⟨⟨none, "a"⟩, some ⟨.kindTest .element "element(\x22(\x22)", .exactlyOne⟩⟩], none, .enclosed, ⟨20, 60⟩⟩] := by
    cbv
  exact ⟨h, (functions_wellFormed h).2.1 _ (by simp [hfunctions])⟩

end Parsed

end QueryStubs
