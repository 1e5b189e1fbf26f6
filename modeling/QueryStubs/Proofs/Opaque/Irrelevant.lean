import Mathlib
import QueryStubs.Proofs.Opaque.Exchanged
import QueryStubs.Proofs.Opaque.Regions
import QueryStubs.Proofs.Recovery.Underway
import QueryStubs.Proofs.Respaced.Irrelevant
import QueryStubs.Proofs.Scan.Marks

/-!
# What is in a body does not matter

Nothing that is in the body of a function or in the value of a variable changes what is made of a module, and nor does a setter among other
setters (`Parsed.opaque_regions`). Strings, comments, nonsense and the words of declarations may be in there, as long as braces, or all
brackets of a value, are balanced.
-/

namespace QueryStubs

open Grammar
open QueryStubs.Tree (constructs leavesOf)

/-- Text that can be the inside of a body: in braces, it is cut into the two braces and tokens whose braces are balanced. -/
def IsBody (b : String) : Prop :=
  ∃ inner, Token.ofSource ("\x7b" ++ b ++ "\x7d") = ⟨.braceOpen, "\x7b"⟩ :: (inner ++ [⟨.braceClose, "\x7d"⟩]) ∧
    Balanced .braceOpen .braceClose (Token.bareKinds inner)

/-- Text that can be a value: before a semicolon, it is cut into tokens and the semicolon, some of these tokens are no trivia, their brackets
are balanced, and no semicolon stands outside them. -/
def IsValue (b : String) : Prop :=
  ∃ run, Token.ofSource (b ++ ";") = run ++ [⟨.semicolon, ";"⟩] ∧ ValueKinds (Token.bareKinds run)

/-- A setter or an import with its semicolon and nothing around it. -/
def IsSetter (d : String) : Prop :=
  (Parsed.ofSource d).hasErrors = false ∧
    ∃ kind us, kind.isSetter = true ∧ (Parsed.ofSource d).tree = .node .root [.node .prolog [.node kind us]]

/-- A source without errors that holds the same module as another up to ranges, and of which the same is made under every configuration. -/
structure Unaffected (s t : String) : Prop where
  accepted : (Parsed.ofSource t).hasErrors = false
  module : (Parsed.ofSource t).module.withoutSpans = (Parsed.ofSource s).module.withoutSpans
  stubs : ∀ c, generate c t = generate c s

namespace Parsed

namespace Around

variable {s : String} {front ps behind before us after : List Tree}

/-- The tokens of the source are those of the trees. -/
theorem tokens (h : Around s front ps behind) : Token.ofSource s = tokensOf (front ++ .node .prolog ps :: behind) := by
  rw [tokens_ofSource, h.tree, Tree.tokens_node]

/-- A source with another prolog is unaffected if the prolog declares the same functions. -/
theorem unaffected (h : Around s front ps behind) (hs : (ofSource s).hasErrors = false) {t : String} {qs : List Tree}
    (hread : ReadAs (front ++ .node .prolog qs :: behind)) (ht : Token.ofSource t = tokensOf (front ++ .node .prolog qs :: behind))
    (hf : functionsOf qs = functionsOf ps) : Unaffected s t := by
  obtain ⟨hn, htree⟩ := hread t ht
  have hmodule : (ofSource t).module.withoutSpans = (ofSource s).module.withoutSpans := by
    rw [module, module, htree, h.tree]
    exact Module.ofTree_exchange h.first hf
  exact ⟨hn, hmodule, generate_of_module hn hs hmodule⟩

/-- A token of a kind that is spelled in one way. -/
theorem eq_of_kind {t : Token} {kind : TokenKind} {w : String} (ht : t ∈ Token.ofSource s) (hk : t.kind = kind)
    (hw : kind.spelling? = some w) : t = ⟨kind, w⟩ := by
  subst hk
  rw [← (Token.spelled_of_scan _ t ht).mark w hw]

/-- What is between two marks that are spelled in one way each can be replaced by the tokens of any text that ends at the second mark. -/
theorem between (h : Around s front ps behind) {opening closing : Token} {k k' : TokenKind} {v w : String} {P old Q : List Token}
    (hsplit : tokensOf (front ++ .node .prolog ps :: behind) = P ++ opening :: (old ++ closing :: Q)) (ho : opening.kind = k)
    (hc : closing.kind = k') (hv : k.spelling? = some v) (hw : k'.spelling? = some w) (hk : k.isSeam = true) (hk' : k'.isSeam = true)
    (hb : k ≠ .blank) (hb' : k' ≠ .blank) :
    ∃ pre mid post, s = pre ++ v ++ mid ++ w ++ post ∧ pre.utf8ByteSize = Token.sizeOf P ∧
      (v ++ mid ++ w).utf8ByteSize = Token.sizeOf (opening :: (old ++ [closing])) ∧
        ∀ {b new}, Token.ofSource (b ++ w) = new ++ [⟨k', w⟩] →
          Token.ofSource (pre ++ v ++ b ++ w ++ post) = P ++ opening :: (new ++ closing :: Q) := by
  have htokens := h.tokens
  rw [hsplit] at htokens
  obtain rfl : opening = ⟨k, v⟩ := eq_of_kind (s := s) (by rw [htokens]; simp) ho hv
  obtain rfl : closing = ⟨k', w⟩ := eq_of_kind (s := s) (by rw [htokens]; simp) hc hw
  obtain ⟨hsource, hbetween⟩ := Token.ofSource_between htokens hk hk' hb hb'
  refine ⟨_, _, _, hsource, (Token.sizeOf_eq P).symm, ?_, fun hnew => hbetween hnew⟩
  rw [Token.sizeOf_eq]
  simp [String.append_assoc]

/-- What is in the body of a function does not matter. -/
theorem body_irrelevant (h : Around s front ps behind) (hs : (ofSource s).hasErrors = false)
    (hps : ps = before ++ .node .functionDecl us :: after) {A inner B : List Tree} (hus : us = A ++ .node .enclosedBody inner :: B) :
    ∃ pre old post, s = pre ++ "\x7b" ++ old ++ "\x7d" ++ post ∧
      pre.utf8ByteSize = Token.sizeOf (leavesOf front) + Token.sizeOf (leavesOf before) + Token.sizeOf (leavesOf A) ∧
        ("\x7b" ++ old ++ "\x7d").utf8ByteSize = Token.sizeOf (leavesOf inner) ∧
          ∀ b, IsBody b → Unaffected s (pre ++ "\x7b" ++ b ++ "\x7d" ++ post) := by
  obtain ⟨opening, old, closing, ho, hc, hinner, hall⟩ := h.body hps hus
  have hscanned : opening.asScanned = opening ∧ closing.asScanned = closing := by simp [Token.asScanned, ho, hc]
  have hsplit : tokensOf (front ++ .node .prolog ps :: behind) = (tokensOf front ++ (tokensOf before ++ tokensOf A)) ++
      opening :: (tokensOf (leavesFor old) ++ closing :: (tokensOf B ++ (tokensOf after ++ tokensOf behind))) := by
    rw [hps, hus, hinner]
    simp [hscanned]
  obtain ⟨pre, mid, post, hsource, hpre, hmid, hbetween⟩ := h.between hsplit ho hc rfl rfl rfl rfl (by decide) (by decide)
  refine ⟨pre, mid, post, hsource, ?_, ?_, fun b hb => ?_⟩
  · rw [hpre]
    simp [Nat.add_assoc]
  · rw [hmid, ← sizeOf_tokensOf, hinner]
    simp [hscanned]
  · obtain ⟨new, hnew, hbalanced⟩ := hb
    rw [String.append_assoc] at hnew
    have hrest := Token.ofSource_behind hnew rfl rfl
    have hk : ∀ t ∈ new, t.kind ≠ .keyword := fun t ht => Token.ne_keyword_of_scan _ t (hrest ▸ List.mem_append_left _ ht)
    obtain ⟨vs, hvs, hread⟩ := hall new hk hbalanced
    refine h.unaffected hs hread ?_ ?_
    · rw [hbetween hrest, hvs]
      simp [hscanned, tokensOf_leavesFor hk]
    · rw [hps, hus, hvs]
      exact functionsOf_exchange (functionsOf_body A _ _ B) before after

/-- What is between the mark that assigns a value and the semicolon does not matter. -/
theorem value_irrelevant (h : Around s front ps behind) (hs : (ofSource s).hasErrors = false)
    (hps : ps = before ++ .node .varDecl us :: after) {A inner B : List Tree} (hus : us = A ++ .node .varValue inner :: B) :
    ∃ pre old post, s = pre ++ ":=" ++ old ++ ";" ++ post ∧
      pre.utf8ByteSize = Token.sizeOf (leavesOf front) + Token.sizeOf (leavesOf before) + Token.sizeOf (leavesOf A) ∧
        (":=" ++ old ++ ";").utf8ByteSize = Token.sizeOf (leavesOf inner) + Token.sizeOf (leavesOf B) ∧
          ∀ b, IsValue b → Unaffected s (pre ++ ":=" ++ b ++ ";" ++ post) := by
  obtain ⟨assign, old, lead, semicolon, ha, hsemicolon, hinner, hB, hall⟩ := h.value hps hus
  have hscanned : assign.asScanned = assign ∧ semicolon.asScanned = semicolon := by simp [Token.asScanned, ha, hsemicolon]
  have hsplit : tokensOf (front ++ .node .prolog ps :: behind) = (tokensOf front ++ (tokensOf before ++ tokensOf A)) ++
      assign :: (tokensOf (leavesFor old ++ leavesFor lead) ++ semicolon :: (tokensOf after ++ tokensOf behind)) := by
    rw [hps, hus, hinner, hB]
    simp [hscanned]
  obtain ⟨pre, mid, post, hsource, hpre, hmid, hbetween⟩ := h.between hsplit ha hsemicolon rfl rfl rfl rfl (by decide) (by decide)
  refine ⟨pre, mid, post, hsource, ?_, ?_, fun b hb => ?_⟩
  · rw [hpre]
    simp [Nat.add_assoc]
  · rw [hmid, ← sizeOf_tokensOf, ← sizeOf_tokensOf B, ← Token.sizeOf_append, ← tokensOf_append, hinner, hB]
    simp [hscanned]
  · obtain ⟨new, hnew, hvalue⟩ := hb
    have hk : ∀ t ∈ new, t.kind ≠ .keyword := fun t ht => Token.ne_keyword_of_scan _ t (hnew ▸ List.mem_append_left _ ht)
    obtain ⟨run, w, rfl, vs, hvs, hread⟩ := hall new hk hvalue
    obtain ⟨hrun, hw⟩ := List.forall_mem_append.mp hk
    refine h.unaffected hs hread ?_ ?_
    · rw [hbetween hnew, hvs]
      simp [hscanned, tokensOf_leavesFor hrun, tokensOf_leavesFor hw]
    · rw [hps]
      refine functionsOf_exchange ?_ before after
      rw [functionsOf_node (by decide), functionsOf_node (by decide)]

/-- The kinds of setters are those of the grammar. -/
theorem mem_setterKinds {kind : NodeKind} (h : kind.isSetter = true) : kind ∈ Form.setterKinds := by
  revert h
  cases kind <;> decide

/-- A setter alone is a declaration that can be put anywhere. -/
theorem inside_of_setter {d : String} (hd : IsSetter d) :
    ∃ kind us, kind ∈ Form.setterKinds ∧ IsInside kind us ∧ Token.ofSource d = tokensOf us := by
  obtain ⟨hclean, kind, us, hk, htree⟩ := hd
  obtain ⟨front, ps, behind, h⟩ := around_of_faultless hclean
  obtain ⟨o, o', ho, hb⟩ := h.built
  have htokens := h.tokens
  have hroot := (Tree.node.inj (h.tree.symm.trans htree)).2
  cases front with
  | nil =>
    obtain ⟨hprolog, rfl⟩ := List.cons.inj hroot
    obtain ⟨-, rfl⟩ := Tree.node.inj hprolog
    exact ⟨kind, us, mem_setterKinds hk, (decls_of_prolog hb ho).single, by simpa using htokens⟩
  | cons f front => simp at hroot

/-- A setter among setters does not matter. -/
theorem setter_irrelevant (h : Around s front ps behind) (hs : (ofSource s).hasErrors = false) (hps : ps = before ++ after)
    (hbefore : ∀ c ∈ constructs before, c.1.isSetter = true) :
    ∃ pre post, s = pre ++ post ∧ pre.utf8ByteSize = Token.sizeOf (leavesOf front) + Token.sizeOf (leavesOf before) ∧
      ∀ d, IsSetter d → Unaffected s (pre ++ d ++ post) := by
  obtain ⟨hclosed, hall⟩ := h.setter hps fun c hc => mem_setterKinds (hbefore c hc)
  have htokens := h.tokens
  rw [hps] at htokens
  generalize hP : tokensOf front ++ tokensOf before = P
  generalize hQ : tokensOf after ++ tokensOf behind = Q
  have hsplit : Token.ofSource s = P ++ ([] ++ Q) := by
    rw [htokens, ← hP, ← hQ]
    simp
  refine ⟨Token.textOf P, Token.textOf Q, ?_, ?_, fun d hd => ?_⟩
  · rw [← Token.textOf_ofSource s, hsplit]
    simp
  · rw [← Token.sizeOf_eq, ← hP]
    simp
  · obtain ⟨kind, us, hk, hin, hd⟩ := inside_of_setter hd
    obtain ⟨new, n, hnew, hn⟩ := hin.ends
    obtain ⟨t, ts, hus, ht⟩ := hin.fronted
    have hreplaced := Token.ofSource_replace hsplit (hP ▸ h.closed.append hclosed) .nil (hd.trans hnew)
      (by rw [Token.isSeam, hn]; rfl) (by simp [hn]) fun m _ _ c hc => Token.isBlank_head (hd.trans hus) ht hc
    refine h.unaffected hs (hall kind hk us hin) ?_ ?_
    · rw [hreplaced, ← hP, ← hQ]
      simp [hnew]
    · have hdecl : ∀ kind ∈ Form.setterKinds, kind ≠ .functionDecl := by decide
      rw [hps, functionsOf_append, functionsOf_append, ← List.singleton_append, functionsOf_append [_],
        functionsOf_node (hdecl kind hk), List.nil_append]

end Around

/-- Opaque regions do not matter. In a source without errors, what is in the braces of a function can be replaced by any text with balanced
braces, what is between the mark that assigns a value to a variable and its semicolon by any text that can be a value, and a setter can be put
in anywhere in the prolog where only setters come before: there is no error still, the module is the same up to ranges, and so is what is
made of it. -/
theorem opaque_regions {s : String} (hs : (ofSource s).hasErrors = false) :
    ∃ prolog, (ofSource s).root.prolog? = some prolog ∧
      (∀ decl ∈ prolog.functionDecls, ∀ body ∈ decl.childrenOf .enclosedBody, ∃ pre old post, s = pre ++ "\x7b" ++ old ++ "\x7d" ++ post ∧
        body.span = ⟨pre.utf8ByteSize, (pre ++ "\x7b" ++ old ++ "\x7d").utf8ByteSize⟩ ∧
          ∀ b, IsBody b → Unaffected s (pre ++ "\x7b" ++ b ++ "\x7d" ++ post)) ∧
      (∀ decl ∈ prolog.childrenOf .varDecl, ∀ value ∈ decl.childrenOf .varValue, ∃ pre old post, s = pre ++ ":=" ++ old ++ ";" ++ post ∧
        value.span.start = pre.utf8ByteSize ∧ decl.span.stop = (pre ++ ":=" ++ old ++ ";").utf8ByteSize ∧
          ∀ b, IsValue b → Unaffected s (pre ++ ":=" ++ b ++ ";" ++ post)) ∧
      ∀ before after, prolog.children = before ++ after → (∀ c ∈ constructs before, c.1.isSetter = true) → ∃ pre post, s = pre ++ post ∧
        pre.utf8ByteSize = prolog.span.start + Token.sizeOf (leavesOf before) ∧ ∀ d, IsSetter d → Unaffected s (pre ++ d ++ post) := by
  obtain ⟨front, ps, behind, h⟩ := around_of_faultless hs
  have hroot : (ofSource s).root = ⟨.root, front ++ .node .prolog ps :: behind, 0⟩ := by
    rw [root, h.tree]
    rfl
  refine ⟨⟨.prolog, ps, 0 + Token.sizeOf (leavesOf front)⟩, by rw [hroot]; exact Node.child?_behind rfl h.first, ?_, ?_, ?_⟩
  · intro decl hdecl body hbody
    obtain ⟨before, after, hps, hstart⟩ := Node.exists_behind_of hdecl
    obtain ⟨A, B, hus, hplace⟩ := Node.exists_behind_of hbody
    obtain ⟨pre, old, post, hsource, hpre, hinner, hall⟩ := h.body_irrelevant hs hps hus
    refine ⟨pre, old, post, hsource, ?_, hall⟩
    simp only [String.utf8ByteSize_append] at hinner
    simp only [Node.span, Node.leaves, String.utf8ByteSize_append, Span.mk.injEq]
    simp only at hstart
    omega
  · intro decl hdecl value hvalue
    obtain ⟨before, after, hps, hstart⟩ := Node.exists_behind_of hdecl
    obtain ⟨A, B, hus, hplace⟩ := Node.exists_behind_of hvalue
    obtain ⟨pre, old, post, hsource, hpre, hinner, hall⟩ := h.value_irrelevant hs hps hus
    have hlength : Token.sizeOf (leavesOf decl.children) =
        Token.sizeOf (leavesOf A) + (Token.sizeOf (leavesOf value.children) + Token.sizeOf (leavesOf B)) := by
      rw [hus]
      simp [Tree.leavesOf]
    refine ⟨pre, old, post, hsource, ?_, ?_, hall⟩
    · simp only at hstart
      simp only [Node.span]
      omega
    · simp only [String.utf8ByteSize_append] at hinner
      simp only at hstart
      simp only [Node.span, Node.leaves, String.utf8ByteSize_append]
      omega
  · intro before after hps hbefore
    obtain ⟨pre, post, hsource, hpre, hall⟩ := h.setter_irrelevant hs hps hbefore
    exact ⟨pre, post, hsource, by simp [hpre, Node.span], hall⟩

set_option maxRecDepth 10000 in
/-- A brace in a string and in a comment, a parenthesis too many and the words of a declaration in a body, a semicolon in the parentheses of a
value, and an import in front of all. -/
theorem opaque_regions_filled :
    (ofSource "declare variable $v := 1; declare function f() \x7b 2 \x7d;").hasErrors = false ∧
      (∃ pre old post, "declare variable $v := 1; declare function f() \x7b 2 \x7d;" = pre ++ "\x7b" ++ old ++ "\x7d" ++ post ∧
        pre.utf8ByteSize = 47 ∧ Unaffected "declare variable $v := 1; declare function f() \x7b 2 \x7d;"
          (pre ++ "\x7b" ++ "\x22\x7d\x22 (:\x7d:) declare function ) ; %" ++ "\x7d" ++ post)) ∧
      (∃ pre old post, "declare variable $v := 1; declare function f() \x7b 2 \x7d;" = pre ++ ":=" ++ old ++ ";" ++ post ∧
        pre.utf8ByteSize = 20 ∧ Unaffected "declare variable $v := 1; declare function f() \x7b 2 \x7d;"
          (pre ++ ":=" ++ "(;declare)[\x22;\x22]" ++ ";" ++ post)) ∧
      ∃ pre post, "declare variable $v := 1; declare function f() \x7b 2 \x7d;" = pre ++ post ∧ pre.utf8ByteSize = 0 ∧
        Unaffected "declare variable $v := 1; declare function f() \x7b 2 \x7d;" (pre ++ "import module \x22u\x22;" ++ post) := by
  have hbody : IsBody "\x22\x7d\x22 (:\x7d:) declare function ) ; %" :=
    ⟨((Token.ofSource "\x7b\x22\x7d\x22 (:\x7d:) declare function ) ; %\x7d").drop 1).dropLast, by cbv, by cbv⟩
  have hvalue : IsValue "(;declare)[\x22;\x22]" :=
    ⟨(Token.ofSource "(;declare)[\x22;\x22];").dropLast, by cbv, by cbv; exact List.cons_ne_nil _ _, by cbv⟩
  have hsetter : IsSetter "import module \x22u\x22;" :=
    ⟨by cbv, .moduleImport, [.leaf ⟨.keyword, "import"⟩, .leaf ⟨.blank, " "⟩, .leaf ⟨.keyword, "module"⟩, .leaf ⟨.blank, " "⟩,
      .node .str [.leaf ⟨.doubleQuote, "\x22"⟩, .leaf ⟨.literalText, "u"⟩, .leaf ⟨.doubleQuote, "\x22"⟩], .leaf ⟨.semicolon, ";"⟩],
      rfl, by cbv⟩
  have hs : (ofSource "declare variable $v := 1; declare function f() \x7b 2 \x7d;").hasErrors = false := by cbv
  obtain ⟨prolog, hprolog, hbodies, hvalues, hsetters⟩ := opaque_regions hs
  have hstarts : (ofSource "declare variable $v := 1; declare function f() \x7b 2 \x7d;").root.prolog?.map (fun p =>
      (p.span.start, p.functionDecls.map fun d => (d.childrenOf .enclosedBody).map fun m => m.span.start,
        (p.childrenOf .varDecl).map fun d => (d.childrenOf .varValue).map fun m => m.span.start)) = some (0, [[47]], [[20]]) := by cbv
  rw [hprolog, Option.map_some, Option.some.injEq, Prod.mk.injEq, Prod.mk.injEq] at hstarts
  obtain ⟨hstart, hfunctions, hvars⟩ := hstarts
  refine ⟨hs, ?_, ?_, ?_⟩
  · obtain ⟨decl, hdecl, hstarts⟩ := List.map_eq_singleton_iff.mp hfunctions
    obtain ⟨body, hbodies', hplace⟩ := List.map_eq_singleton_iff.mp hstarts
    obtain ⟨pre, old, post, hsource, hspan, hall⟩ := hbodies decl (by simp [hdecl]) body (by simp [hbodies'])
    exact ⟨pre, old, post, hsource, by rw [← hplace, hspan], hall _ hbody⟩
  · obtain ⟨decl, hdecl, hstarts⟩ := List.map_eq_singleton_iff.mp hvars
    obtain ⟨value, hvalues', hplace⟩ := List.map_eq_singleton_iff.mp hstarts
    obtain ⟨pre, old, post, hsource, hspan, -, hall⟩ := hvalues decl (by simp [hdecl]) value (by simp [hvalues'])
    exact ⟨pre, old, post, hsource, by rw [← hplace, hspan], hall _ hvalue⟩
  · obtain ⟨pre, post, hsource, hsize, hall⟩ := hsetters [] prolog.children rfl (List.forall_mem_nil _)
    exact ⟨pre, post, hsource, by rw [hsize, hstart]; rfl, hall _ hsetter⟩

end Parsed

end QueryStubs
