import QueryStubs.Proofs.Suppression.First
import QueryStubs.Proofs.Syntax.Accepted
import QueryStubs.Proofs.Written.Spelled
import QueryStubs.Proofs.Written.Viewed

/-!
# Reading what was written

A module that can be written is read back from its text as it was, but for the ranges of its functions (`Module.parse_source`). The text
is cut into the tokens of the module's tree (`Module.ofSource_source`), the tree is of the form of modules (`Module.builds`), so it is the
tree that the source is read as, without an error (`Parsed.ofSource_of_builds`), and the views find the module in it
(`Module.ofTree_tree`).
-/

namespace QueryStubs

namespace Module

/-- A written module is read without an error, as its tree. -/
theorem ofSource_written {m : Module} (hm : m.Writable) :
    (Parsed.ofSource m.source).hasErrors = false ∧ (Parsed.ofSource m.source).tree = m.tree := by
  obtain ⟨offset, reached, hb⟩ := builds hm
  have hstart : (Grammar.Cursor.start m.source).outlook = look 0 0 m.tree.tokens := by
    rw [← ofSource_source hm]
    rfl
  rw [← hstart] at hb
  exact Parsed.ofSource_of_builds hb rfl

/-- Reading undoes writing: a module that can be written is read back from its source as it was, but for the ranges of its functions. -/
theorem parse_source {m : Module} (hm : m.Writable) :
    ∃ m', parse m.source = .ok m' ∧ m'.withoutSpans = m.withoutSpans := by
  obtain ⟨hn, ht⟩ := ofSource_written hm
  refine ⟨ofTree m.tree, ?_, ofTree_tree hm⟩
  rw [parse_of_faultless hn, ht]

/-- A library module whose names are words of the syntax, with a quotation mark and a brace in its literals. -/
def ofWords : Module where
  version := some ⟨some "1.0", some "utf\x22\x7b8"⟩
  kind := .library "declare" ""
  functions :=
    [⟨⟨some "declare", "external"⟩,
        [⟨⟨none, "as"⟩, some ⟨.kindTest .element "element(item,p:node)", .oneOrMore⟩⟩, ⟨⟨none, "element"⟩, none⟩,
          ⟨⟨none, "x"⟩, some ⟨.atomic ⟨some "xs", "text"⟩, .optional⟩⟩],
        some ⟨.emptySequence, .exactlyOne⟩, .external, ⟨3, 4⟩⟩,
      ⟨⟨none, "function"⟩, [], some ⟨.anyItem, .zeroOrMore⟩, .enclosed, ⟨0, 0⟩⟩]

/-- Such a module can be written and is read back. -/
theorem parse_source_ofWords :
    ofWords.Writable ∧ ∃ m', parse ofWords.source = .ok m' ∧ m'.withoutSpans = ofWords.withoutSpans := by
  have htest : SequenceType.Writable ⟨.kindTest .element "element(item,p:node)", .oneOrMore⟩ :=
    ⟨⟨[⟨none, "item"⟩, ⟨some "p", "node"⟩], by decide, by decide⟩, fun h => nomatch h⟩
  have hname : QName.Writable ⟨some "xs", "text"⟩ := by decide
  have hatomic : SequenceType.Writable ⟨.atomic ⟨some "xs", "text"⟩, .optional⟩ := ⟨hname, fun h => nomatch h⟩
  have hempty : SequenceType.Writable ⟨.emptySequence, .exactlyOne⟩ := ⟨trivial, fun _ => rfl⟩
  have hitem : SequenceType.Writable ⟨.anyItem, .zeroOrMore⟩ := ⟨trivial, fun h => nomatch h⟩
  have hfunctions : ∀ f ∈ ofWords.functions, f.Writable := by
    intro f hf
    simp only [ofWords, List.mem_cons, List.not_mem_nil, or_false] at hf
    rcases hf with rfl | rfl
    · exact ⟨by decide, by simpa [Param.Writable] using ⟨⟨by decide, htest⟩, by decide, by decide, hatomic⟩, by simpa using hempty⟩
    · exact ⟨by decide, by simp, by simpa using hitem⟩
  have hqualifier : IsNCName "declare" := by decide
  have hwritable : ofWords.Writable := ⟨by simp [ofWords, Version.Writable], hqualifier, hfunctions⟩
  exact ⟨hwritable, parse_source hwritable⟩

end Module

end QueryStubs
