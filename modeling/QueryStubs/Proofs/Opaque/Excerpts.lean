import QueryStubs.Proofs.Opaque.Irrelevant

/-!
# Functions cut out of their source

A text can be cut in front of every declaration of a prolog and behind it, so the tokens between are those of the declaration even if
nothing stands around it. Alone they are a main module with this declaration in it (`Parsed.readAs_alone`). So the range of a function is
a declaration by itself, of the same function (`Parsed.functions_excerpted`).
-/

namespace QueryStubs

open Grammar
open QueryStubs.Tree (constructs leavesOf)

namespace Grammar

/-! ## Declarations among others -/

/-- Every declaration of a row can be put anywhere. -/
theorem Decls.inside {late : Bool} {ts : List Tree} (h : Decls late ts) {kind : NodeKind} {us : List Tree} (hmem : .node kind us ∈ ts) :
    IsInside kind us := by
  have hrow : ∀ {w k vs rest}, .node kind us ∈ leavesFor w ++ .node k vs :: rest → IsInside k vs →
      (.node kind us ∈ rest → IsInside kind us) → IsInside kind us := by
    intro w k vs rest hmem hin ih
    simp only [leavesFor, List.mem_append, List.mem_map, List.mem_cons, reduceCtorEq, and_false, exists_false, false_or] at hmem
    rcases hmem with heq | hmem
    · obtain ⟨rfl, rfl⟩ := Tree.node.inj heq
      exact hin
    · exact ih hmem
  induction h with
  | none => cases hmem
  | setter _ _ hin _ ih | other _ _ hin _ ih => exact hrow hmem hin ih

/-- A declaration alone is a prolog. -/
theorem IsInside.prolog {kind : NodeKind} {us : List Tree} (h : IsInside kind us) (hk : kind ∈ declKinds) :
    Spells .prolog [.node kind us] := by
  rcases List.mem_append.mp hk with hk | hk
  · exact (Decls.setter .nil hk h (.none false)).prolog
  · exact (Decls.other .nil hk h (.none true)).prolog

/-- A declaration starts with its first word. -/
theorem IsInside.word {kind : NodeKind} {us : List Tree} (h : IsInside kind us) {w : String}
    (hw : (Form.declWords kind).head? = some [w]) : ∃ ts, tokensOf us = .ofName w :: ts := by
  obtain ⟨t, ts, hus, ht⟩ := h.fronted
  obtain ⟨_, _, hb⟩ := h.spells 0 0 []
  rw [List.append_nil, hus] at hb
  obtain ⟨start, hlook⟩ := look_cons .nil ht 0 0 ts
  rw [List.nil_append] at hlook
  rw [hlook] at hb
  cases hb with
  | seq hb =>
    cases hb with
    | seq hb =>
      rw [List.head?_eq_getElem?] at hw
      obtain ⟨v, hv, hword⟩ := words_of_keywords hb 0 [w] hw
      rw [List.mem_singleton.mp hv, Outlook.wordAt_zero] at hword
      obtain ⟨hkind, htext⟩ := isWord_some.mp hword
      have htoken : t = .ofName w := by
        rw [Token.ofName, ← htext, ← (show t.kind = .name from hkind)]
      exact ⟨ts, htoken ▸ hus⟩

end Grammar

namespace Parsed

/-- A declaration alone is a main module. -/
theorem readAs_alone {kind : NodeKind} {us : List Tree} (h : IsInside kind us) (hk : kind ∈ declKinds) :
    ReadAs [.node .prolog [.node kind us]] := by
  intro t ht
  have hempty : (look 0 0 []).Scanned := ⟨⟨nofun, .nil, nofun⟩, nofun⟩
  have hbody : (Form.guard (¬ StartsDecl ·) .queryBody).Builds (look 0 0 []) [] (look 0 0 []) :=
    .guard (fun h => by simp [StartsDecl, IsWordAt, look, Lexeme.split] at h) (.second (.nothing _))
  have hfront : Fronted [.node kind us] := h.fronted.node
  obtain ⟨hversion, offset, reached, hb⟩ :=
    main_again hbody hempty rfl .nil (h.prolog hk) (hfront.tokens_ne_nil []) (fronted_iff.mp hfront).2 0 0
  have hrest : [] ++ (tokensOf [.node kind us] ++ (tokensOf [] ++ (look 0 0 []).tail)) = tokensOf [.node .prolog [.node kind us]] := by
    simp [look, Lexeme.split]
  rw [hrest] at hversion hb
  have hv : Form.version.Builds (look 0 0 (tokensOf [] ++ tokensOf [.node .prolog [.node kind us]])) []
      (look 0 0 (tokensOf [.node .prolog [.node kind us]])) :=
    .second (.guard (by rw [tokens_look]; exact hversion) (.nothing _))
  exact ofSource_of_parts .nil ht hv hb

/-- The module of a declaration alone has the functions that it declares. -/
theorem module_alone {kind : NodeKind} {us : List Tree} {t : String} (h : (ofSource t).tree = .node .root [.node .prolog [.node kind us]]) :
    (ofSource t).module = { version := none, kind := .main, functions := functionsFrom 0 [.node kind us] } := by
  have hfunctions := (functions_of_tree h).1
  have hversion : (ofSource t).module.version = none := by
    rw [module, h]
    rfl
  have hkind : (ofSource t).module.kind = .main := by
    rw [module, h]
    rfl
  rw [← hversion, ← hkind, ← hfunctions]

namespace Around

variable {s : String} {front ps behind before us after : List Tree} {kind : NodeKind}

/-- The text of a declaration is cut into the tokens of the declaration even if nothing stands around it. -/
theorem excerpt (h : Around s front ps behind) (hps : ps = before ++ .node kind us :: after) :
    Token.ofSource (Token.textOf (tokensOf us)) = tokensOf us ∧ (Token.textOf (tokensOf us)).utf8ByteSize ≤ s.utf8ByteSize ∧
      Span.Cuts s ⟨Token.sizeOf (leavesOf front) + Token.sizeOf (leavesOf before),
        Token.sizeOf (leavesOf front) + Token.sizeOf (leavesOf before) + Token.sizeOf (leavesOf us)⟩ (Token.textOf (tokensOf us)) := by
  obtain ⟨o, o', ho, hb⟩ := h.built
  have hdecls : Decls false (before ++ .node kind us :: after) := hps ▸ decls_of_prolog hb ho
  have hin : IsInside kind us := hdecls.inside (by simp)
  have hsplit : Token.ofSource s =
      (tokensOf front ++ tokensOf before) ++ (tokensOf us ++ (tokensOf after ++ tokensOf behind)) := by
    rw [h.tokens, hps]
    simp
  have hrest := Token.scan_rest hsplit (h.closed.append hdecls.closed)
  refine ⟨?_, ?_, ?_⟩
  · obtain ⟨ts, n, hus, hn⟩ := hin.ends
    rw [hus, List.append_assoc, List.singleton_append] at hrest
    have hclears : n.Clears [] := fun _ _ hd => nomatch hd
    have hbehind := Token.scan_behind hrest (by rw [Token.isSeam, hn]; rfl) hclears
    have hnil : Token.scan [] = [] := Token.Apart.nil
    rw [List.append_nil, ← hus, hnil] at hbehind
    rw [Token.ofSource, Token.toList_textOf, hbehind, hus]
  · rw [← Token.sizeOf_eq, ← Token.textOf_ofSource s, ← Token.sizeOf_eq, hsplit]
    simp only [Token.sizeOf_append]
    omega
  · have hcuts := Token.cuts_textOf (tokensOf front ++ tokensOf before) (tokensOf us) (tokensOf after ++ tokensOf behind)
    rw [List.append_assoc, ← hsplit, Token.textOf_ofSource] at hcuts
    simpa using hcuts

end Around

/-- The functions of a module are those that its first prolog declares. -/
theorem functions_of_prolog {p : Parsed} {front us behind : List Tree} (h : p.tree = .node .root (front ++ .node .prolog us :: behind))
    (hfirst : ∀ c ∈ constructs front, c.1 ≠ .prolog) : p.module.functions = functionsFrom (Token.sizeOf (leavesOf front)) us := by
  have hroot : p.root = ⟨.root, front ++ .node .prolog us :: behind, 0⟩ := by
    rw [root, h]
    rfl
  exact functions_root (by rw [hroot, Node.prolog?, Node.child?_behind rfl hfirst, Nat.zero_add])

/-- A node that declares a function declares nothing else. -/
theorem functionsFrom_single {us : List Tree} {offset : Nat} {f : FunctionDecl}
    (h : Node.toFunctionDecl? ⟨.functionDecl, us, offset⟩ = some f) : functionsFrom offset [.node .functionDecl us] = [f] := by
  simp [functionsFrom, Node.functionDecls, Node.childrenOf, Node.nodes, Node.parts, Part.ofTrees, Part.node?, h]

/-- In the range of a function there is a declaration that can be put anywhere, and the function is the one that it declares. -/
theorem functions_inside {s : String} (hs : (ofSource s).hasErrors = false) {f : FunctionDecl} (hf : f ∈ (ofSource s).module.functions) :
    ∃ us, IsInside .functionDecl us ∧ Token.ofSource (Token.textOf (tokensOf us)) = tokensOf us ∧
      (Token.textOf (tokensOf us)).utf8ByteSize ≤ s.utf8ByteSize ∧ f.span.Cuts s (Token.textOf (tokensOf us)) ∧
        Node.toFunctionDecl? ⟨.functionDecl, us, f.span.start⟩ = some f := by
  obtain ⟨front, ps, behind, h⟩ := around_of_faultless hs
  rw [functions_of_prolog h.tree h.first] at hf
  obtain ⟨decl, hdecl, hf⟩ := List.mem_filterMap.mp hf
  obtain ⟨before, after, hps, hstart⟩ := Node.exists_behind_of hdecl
  have hkind : decl.kind = .functionDecl := of_decide_eq_true (List.mem_filter.mp hdecl).2
  obtain ⟨kind, us, start⟩ := decl
  simp only at hps hstart hkind
  subst hkind hstart
  obtain ⟨hscan, hle, hcuts⟩ := h.excerpt hps
  obtain ⟨o, o', ho, hb⟩ := h.built
  have hin : IsInside .functionDecl us := (hps ▸ decls_of_prolog hb ho).inside (by simp)
  have hspan := (Node.readsFunction hf).span
  refine ⟨us, hin, hscan, hle, ?_, ?_⟩
  · rw [hspan]
    exact hcuts
  · rw [hspan]
    exact hf

/-- The range of a function is a declaration by itself: in a source without errors, what is in the range of a function starts with
`declare` and ends with a semicolon, and if it is read alone, there is no error, and it is a main module with nothing in it but this
function, which ranges over all of it. The source and the declaration are read alike with offsets of 32 bits, as long as these can tell the
places of the source apart. -/
theorem functions_excerpted {s : String} (h : Addressable s) (hs : (ofSource s).hasErrors = false) :
    wrapped? s = some (ofSource s) ∧ ∀ f ∈ (ofSource s).module.functions, ∃ text,
      f.span.Cuts s text ∧ (∃ rest, text = "declare" ++ rest) ∧ (∃ start, text = start ++ ";") ∧
        wrapped? text = some (ofSource text) ∧ (ofSource text).hasErrors = false ∧
          Module.parse text = .ok { version := none, kind := .main, functions := [{ f with span := ⟨0, text.utf8ByteSize⟩ }] } := by
  refine ⟨wrapped?_eq h, fun f hf => ?_⟩
  obtain ⟨us, hin, hscan, hle, hcuts, hf⟩ := functions_inside hs hf
  obtain ⟨hn, htree⟩ := readAs_alone hin (by decide) _ (by simpa using hscan)
  refine ⟨Token.textOf (tokensOf us), hcuts, ?_, ?_, wrapped?_eq (Nat.lt_of_le_of_lt hle h), hn, ?_⟩
  · obtain ⟨ts, hts⟩ := hin.word rfl
    rw [hts, Token.textOf_cons]
    exact ⟨_, rfl⟩
  · obtain ⟨ts, n, hts, hkind⟩ := hin.ends
    obtain rfl : n = ⟨.semicolon, ";"⟩ := Around.eq_of_kind (s := Token.textOf (tokensOf us)) (by rw [hscan, hts]; simp) hkind rfl
    rw [hts, Token.textOf_append]
    exact ⟨Token.textOf ts, by simp⟩
  · have hsize : (Token.textOf (tokensOf us)).utf8ByteSize = Token.sizeOf (leavesOf us) := by rw [← Token.sizeOf_eq, sizeOf_tokensOf]
    have halone : Node.toFunctionDecl? ⟨.functionDecl, us, 0⟩ = some { f with span := ⟨0, Token.sizeOf (leavesOf us)⟩ } := by
      have hsame := Node.toFunctionDecl?_similar (n := ⟨.functionDecl, us, 0⟩) (m := ⟨.functionDecl, us, f.span.start⟩) rfl
      rw [hsame, hf, Option.map_some, Node.span, Nat.zero_add]
      rfl
    rw [Module.parse_of_faultless hn, ← module, module_alone htree, functionsFrom_single halone, hsize]

/-- A library module with two functions, and a brace and a semicolon in a string and a comment of the second. -/
def twoFunctions : String :=
  "module namespace p = \x22u\x22; declare function p:f() external; declare function p:g($a) \x7b \x22\x7d;\x22 (:\x7d:) \x7d; "

/-- The second function of a library module is such a declaration. -/
theorem functions_excerpted_second :
    Addressable twoFunctions ∧ (ofSource twoFunctions).hasErrors = false ∧
      ∃ text, Span.Cuts twoFunctions ⟨59, 99⟩ text ∧ (∃ rest, text = "declare" ++ rest) ∧ (∃ start, text = start ++ ";") ∧
        wrapped? text = some (ofSource text) ∧ (ofSource text).hasErrors = false ∧
          Module.parse text =
            .ok { version := none, kind := .main,
                  functions := [⟨⟨some "p", "g"⟩, [⟨⟨none, "a"⟩, none⟩], none, .enclosed, ⟨0, text.utf8ByteSize⟩⟩] } := by
  have h : Addressable twoFunctions := by decide
  have hs : (ofSource twoFunctions).hasErrors = false := by cbv
  have hfunctions : (ofSource twoFunctions).module.functions =
      [⟨⟨some "p", "f"⟩, [], none, .external, ⟨26, 58⟩⟩, ⟨⟨some "p", "g"⟩, [⟨⟨none, "a"⟩, none⟩], none, .enclosed, ⟨59, 99⟩⟩] := by
    cbv
  exact ⟨h, hs, (functions_excerpted h hs).2 ⟨⟨some "p", "g"⟩, [⟨⟨none, "a"⟩, none⟩], none, .enclosed, ⟨59, 99⟩⟩ (by simp [hfunctions])⟩

end Parsed

end QueryStubs
