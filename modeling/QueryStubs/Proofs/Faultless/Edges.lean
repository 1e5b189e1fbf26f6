import QueryStubs.Proofs.Faultless.Inside
import QueryStubs.Proofs.Lenient.WellFormed
import QueryStubs.Proofs.Reports.Ends
import QueryStubs.Proofs.Reports.Rounds

/-!
# What nodes start and end with

A form that takes trivia with lexemes only is tight (`Form.Tight`): it opens no node, other than one that the trivia in front of it belong
to, in which there may be no lexeme. What such a form builds ends with a token that is no trivia (`Form.Builds.last_meant`). Where no trivia come
next it starts with one too (`Form.Builds.fronted`).

So in a source without errors every node other than the root ends with a token that is no trivia, and nearly every one starts with one
(`Parsed.edges_of_faultless`). Two kinds of nodes do not: the prolog behind a module declaration and the sequence type behind `as` are opened
before anything is seen of what comes next. The outline shows the range of the second as the range of a result, blanks included
(`Parsed.result_starts_blank`).
-/

namespace QueryStubs

open Grammar
open QueryStubs.Tree (constructs leavesOf)

namespace Grammar

/-! ## Tight forms -/

namespace Form

/-- The form takes a lexeme at least. -/
def Filled : Form → Prop
  | .one _ | .keyword _ | .prefixed => True
  | .run p => ¬ p []
  | .seq f g => f.Filled ∨ g.Filled
  | .either f g => f.Filled ∧ g.Filled
  | .node _ f | .leadNode _ f | .guard _ f => f.Filled
  | .nothing | .many _ | .trivia => False

/-- The form takes trivia with lexemes only. -/
def Tight : Form → Prop
  | .seq f g | .either f g => f.Tight ∧ g.Tight
  | .many f | .leadNode _ f | .guard _ f => f.Tight
  | .node _ f => f.Filled ∧ f.Tight
  | .nothing | .one _ | .keyword _ | .prefixed | .run _ => True
  | .trivia => False

variable {f : Form} {o o' : Outlook} {ts : List Tree}

/-- A tight form takes lexemes with the trivia in front of each, and one at least if it is filled. -/
theorem Builds.taken (h : f.Builds o ts o') (hf : f.Tight) : ∃ n, o.Taken n o' ∧ (f.Filled → 0 < n) := by
  induction h with
  | nothing o | manyNil o => exact ⟨0, .refl o, False.elim⟩
  | @one p l | @keyword words l => exact ⟨1, ⟨rfl, [l], rfl, le_rfl⟩, fun _ => one_pos⟩
  | @prefixed first colon last => exact ⟨3, ⟨rfl, [first, colon, last], rfl, le_rfl⟩, fun _ => three_pos⟩
  | @run p run ls tail reached hp =>
    refine ⟨run.length, ⟨rfl, run, rfl, le_rfl⟩, fun hfilled => List.length_pos_of_ne_nil ?_⟩
    rintro rfl
    exact hfilled hp
  | seq _ _ ih ih' =>
    obtain ⟨n, hn, hpos⟩ := ih hf.1
    obtain ⟨m, hm, hpos'⟩ := ih' hf.2
    refine ⟨n + m, hn.trans hm, ?_⟩
    rintro (hfilled | hfilled)
    · exact Nat.add_pos_left (hpos hfilled) m
    · exact Nat.add_pos_right n (hpos' hfilled)
  | first _ ih =>
    obtain ⟨n, hn, hpos⟩ := ih hf.1
    exact ⟨n, hn, fun hfilled => hpos hfilled.1⟩
  | second _ ih =>
    obtain ⟨n, hn, hpos⟩ := ih hf.2
    exact ⟨n, hn, fun hfilled => hpos hfilled.2⟩
  | manyCons _ _ ih ih' =>
    obtain ⟨n, hn, -⟩ := ih hf
    obtain ⟨m, hm, -⟩ := ih' hf
    exact ⟨n + m, hn.trans hm, False.elim⟩
  | node _ ih =>
    -- the trivia that are placed in front of the node go with its first lexeme
    obtain ⟨n, hn, hpos⟩ := ih hf.2
    obtain ⟨m, rfl⟩ := Nat.exists_eq_succ_of_ne_zero (hpos hf.1).ne'
    exact ⟨m + 1, hn.of_placed, fun _ => m.succ_pos⟩
  | leadNode _ ih | guard _ _ ih => exact ih hf
  | trivia => exact hf.elim

/-- What a tight form builds of some tokens ends with one that is no trivia. -/
theorem Builds.last_meant (h : f.Builds o ts o') (hf : f.Tight) (ho : o.Scanned) (hts : tokensOf ts ≠ []) :
    ∃ us t, tokensOf ts = us ++ [t] ∧ t.isTrivia = false := by
  obtain ⟨n, ⟨htail, run, hrun, -⟩, -⟩ := h.taken hf
  have htokens : tokensOf ts = run.flatMap Lexeme.tokens := by
    have hleft := h.left ho.names
    rw [Outlook.left, Outlook.left, hrun, htail, List.flatMap_append, List.append_assoc] at hleft
    exact (List.append_cancel_right hleft).symm
  obtain ⟨run, l, rfl⟩ := (List.eq_nil_or_concat run).resolve_left fun hnil => hts (by simp [htokens, hnil])
  have hl := ho.lexical.tokens l (by simp [hrun])
  exact ⟨run.flatMap Lexeme.tokens ++ l.lead, l.token, by simp [htokens, Lexeme.tokens], hl.1⟩

/-! ## Which nodes are so -/

/-- What is so of every node in the form of modules: what is inside it is tight, other than in the root, and trivia in front belong to it only
if it is the root, a sequence type or, in a library, a prolog. -/
def Edged (library led : Bool) (kind : NodeKind) (f : Form) : Prop :=
  (kind ≠ .root → f.Tight) ∧ (led = true → kind = .root ∨ kind = .sequenceType ∨ library = true ∧ kind = .prolog) ∧
    (kind = .typeDecl → f = .seq (.word "as") (.leadNode .sequenceType .itemType))

/-- The form takes no trivia by themselves. -/
def bare : Form → Bool
  | .seq f g | .either f g => f.bare && g.bare
  | .many f | .node _ f | .leadNode _ f | .guard _ f => f.bare
  | .nothing | .one _ | .keyword _ | .prefixed | .run _ => true
  | .trivia => false

/-- A node that the trivia in front of it do not belong to has a lexeme in it. -/
def FilledNode (led : Bool) (_ : NodeKind) (f : Form) : Prop := led = false → f.Filled

/-- A form is tight if it takes no trivia by themselves and its nodes have lexemes in them. -/
theorem tight_of_bare (hf : f.bare = true) (h : f.Every FilledNode) : f.Tight := by
  induction f with
  | nothing | one | keyword | prefixed | run => trivial
  | seq f g ih ih' | either f g ih ih' =>
    obtain ⟨hf, hg⟩ := (Bool.and_eq_true _ _).mp hf
    exact ⟨ih hf h.1, ih' hg h.2⟩
  | many f ih | guard T f ih => exact ih hf h
  | node kind f ih => exact ⟨h.1 rfl, ih hf h.2⟩
  | leadNode kind f ih => exact ih hf h.2
  | trivia => cases hf

/-- The nodes of the grammar have lexemes in them. -/
theorem filled_nodes : Nodes FilledNode := by
  intro kind hk hled
  cases kind with
  | prolog => exact absurd rfl hk
  | root | sequenceType => cases hled
  | str => exact ⟨.inl trivial, .inl trivial⟩
  | qname | atomicType => exact ⟨trivial, trivial⟩
  | queryBody => exact fun h => h.1 rfl
  | occurrence | externalBody => trivial
  | versionDecl | moduleDecl => exact .inr trivial
  | emptySequence | anyItem | kindTest | typeDecl | param | paramList | enclosedBody | varValue => exact .inl trivial
  | _ => exact .inr trivial

/-- What is inside a node is tight, other than in the root. -/
theorem tight_inside {kind : NodeKind} (hk : kind ≠ .root) : (inside kind).Tight :=
  tight_of_bare (by cases kind <;> first | rfl | exact absurd rfl hk) (filled_nodes.every_inside hk)

theorem edged_nodes (library : Bool) : Nodes (Edged library) := by
  refine fun kind _ => ⟨tight_inside, fun hled => ?_, fun hk => hk ▸ rfl⟩
  cases kind <;> first | exact .inl rfl | exact .inr (.inl rfl) | cases hled

theorem edged_whole : whole.Every (Edged true) :=
  (edged_nodes true).every_whole fun _ => ⟨tight_inside, fun _ => .inr (.inr ⟨rfl, rfl⟩), nofun⟩

/-- The form of main modules, which are those without a module declaration. -/
def mainWhole : Form := row [version, .guard (¬ StartsModule ·) mainModule, .trivia]

theorem edged_mainWhole : mainWhole.Every (Edged false) :=
  ⟨(edged_nodes false).every_version, (edged_nodes false).every_mainModule ⟨tight_inside, nofun, nofun⟩, trivial⟩

/-- Where no trivia come next, what is built of `as` and a sequence type starts with the word, and the rest is the sequence type. -/
theorem Builds.type_parts {o o' : Outlook} {ts : List Tree}
    (h : (Form.seq (.word "as") (.leadNode .sequenceType .itemType)).Builds o ts o') (hn : o.trivia = []) :
    ∃ t us, ts = [.leaf t, .node .sequenceType us] ∧ t.text = "as" := by
  cases h with
  | seq hword htype =>
    cases hword with
    | @keyword _ l _ _ _ _ has =>
      cases htype with
      | @leadNode _ _ _ _ us _ =>
        have hlead : l.lead = [] := hn
        exact ⟨l.token.asKeyword, us, by simp [hlead, leavesFor], List.mem_singleton.mp has⟩

/-- What is built of the form of modules has a module declaration or is built of that of main modules. -/
theorem Builds.library_or_main {o o' : Outlook} {ts : List Tree} (h : whole.Builds o ts o') :
    ∃ us, ts = [.node .root us] ∧ ((∃ vs, (NodeKind.moduleDecl, vs) ∈ constructs us) ∨ mainWhole.Builds o us o') := by
  cases h with
  | @leadNode _ _ _ _ us h =>
    refine ⟨us, rfl, ?_⟩
    cases h with
    | @seq _ _ _ _ _ as _ hversion h =>
      cases h with
      | @seq _ _ _ _ _ bs cs h htrivia =>
        cases h with
        | second h => exact .inr (.seq hversion (.seq h htrivia))
        | first h =>
          cases h with
          | seq h _ =>
            cases h with
            | @node _ _ _ _ vs _ => exact .inl ⟨vs, by simp⟩

end Form

end Grammar

/-! ## Nodes without errors -/

namespace Node

/-- The first token of the node is no trivia. -/
def FirstMeant (n : Node) : Prop := ∀ t ∈ n.leaves.head?, t.isTrivia = false

/-- The last token of the node is no trivia. -/
def LastMeant (n : Node) : Prop := ∀ t ∈ n.leaves.getLast?, t.isTrivia = false

variable {n : Node}

/-- The range of such a node ends with that of its core. -/
theorem LastMeant.stop (h : n.LastMeant) : n.span.stop = n.core.stop := by
  have hsame : (n.leaves.dropWhile (·.isTrivia)).rdropWhile (·.isTrivia) = n.leaves.dropWhile (·.isTrivia) := by
    refine List.rdropWhile_eq_self_iff.mpr fun hne => ?_
    have hlast : n.leaves.getLast? = some ((n.leaves.dropWhile (·.isTrivia)).getLast hne) := by
      rw [← List.getLast?_eq_some_getLast hne]
      conv_lhs => rw [← List.takeWhile_append_dropWhile (p := (·.isTrivia)) (l := n.leaves)]
      rw [List.getLast?_append_of_ne_nil _ hne]
    simp [h _ hlast]
  have hsize : Token.sizeOf n.leaves = Token.sizeOf (n.leaves.takeWhile (·.isTrivia)) + Token.sizeOf (n.leaves.dropWhile (·.isTrivia)) := by
    rw [← Token.sizeOf_append, List.takeWhile_append_dropWhile]
  rw [span, core, hsame, hsize, Nat.add_assoc]

/-- And with both its core is all of it. -/
theorem FirstMeant.span_eq_core (h : n.FirstMeant) (hlast : n.LastMeant) : n.span = n.core := by
  have hstart : n.core.start = n.start := by
    have hnone : n.leaves.takeWhile (·.isTrivia) = [] := by
      cases hleaves : n.leaves with
      | nil => rfl
      | cons t ts => exact List.takeWhile_cons_of_neg (by simp [h t (by rw [hleaves]; rfl)])
    rw [core, hnone]
    rfl
  calc n.span = ⟨n.start, n.span.stop⟩ := rfl
    _ = ⟨n.core.start, n.core.stop⟩ := by rw [hstart, hlast.stop]

/-- A node starts with a token that is no trivia if what it was built of does. -/
theorem firstMeant_of_headed (h : Headed n.children) : n.FirstMeant := by
  intro t ht
  rw [← t.isTrivia_asScanned]
  refine h t.asScanned ?_
  rw [tokensOf_eq, List.head?_map, show (leavesOf n.children).head? = some t from ht, Option.map_some]

/-- And it ends with one if what it was built of does. -/
theorem lastMeant_of_ends (h : tokensOf n.children ≠ [] → ∃ us t, tokensOf n.children = us ++ [t] ∧ t.isTrivia = false) :
    n.LastMeant := by
  intro t ht
  have hleaves : (tokensOf n.children).getLast? = some t.asScanned := by
    rw [tokensOf_eq, List.getLast?_map, show (leavesOf n.children).getLast? = some t from ht, Option.map_some]
  obtain ⟨us, u, hus, hu⟩ := h fun hnil => by simp [hnil] at hleaves
  rw [hus, List.getLast?_concat] at hleaves
  rw [← t.isTrivia_asScanned, ← Option.some.inj hleaves, hu]

variable {library : Bool}

/-- Every such node other than the root ends with a token that is no trivia, and starts with one unless the trivia in front belong to it. -/
theorem Inside.edges (h : n.Inside (Form.Edged library)) (hk : n.kind ≠ .root) :
    n.LastMeant ∧ (n.kind ≠ .sequenceType → (n.kind = .prolog → library = false) → n.FirstMeant) := by
  obtain ⟨led, f, o, o', ⟨htight, hled, -⟩, -, ho, hbare, hb⟩ := h
  refine ⟨lastMeant_of_ends (hb.last_meant (htight hk) ho), fun htype hprolog => firstMeant_of_headed ?_⟩
  have hplain : led = false := by
    rw [← Bool.not_eq_true]
    intro hl
    rcases hled hl with hroot | hsequence | ⟨hlibrary, hkind⟩
    · exact hk hroot
    · exact htype hsequence
    · rw [hprolog hkind] at hlibrary
      cases hlibrary
  by_cases hnil : tokensOf n.children = []
  · intro t ht
    rw [hnil] at ht
    cases ht
  · exact (fronted_iff.mp (hb.fronted ho (hbare hplain) hnil)).2

/-- In a type declaration the sequence type starts right behind the word. -/
theorem Inside.type_start (h : n.Inside (Form.Edged library)) (hk : n.kind = .typeDecl) :
    ∃ type, n.sequenceType? = some type ∧ type.span = ⟨n.start + 2, n.span.stop⟩ := by
  obtain ⟨led, f, o, o', ⟨-, hled, hform⟩, -, -, hbare, hb⟩ := h
  have hplain : led = false := by
    rw [← Bool.not_eq_true]
    intro hl
    simpa [hk] using hled hl
  rw [hform hk] at hb
  obtain ⟨t, us, hchildren, has⟩ := hb.type_parts (hbare hplain)
  have hsize : t.size = 2 := by
    rw [Token.size, has]
    rfl
  obtain ⟨kind, ts, start⟩ := n
  obtain rfl : ts = [.leaf t, .node .sequenceType us] := hchildren
  refine ⟨⟨.sequenceType, us, start + t.size⟩, rfl, ?_⟩
  have hleaves : leavesOf [.leaf t, .node .sequenceType us] = t :: leavesOf us := by simp [Tree.leavesOf, Tree.leaves]
  simp [span, leaves, hleaves, hsize, Nat.add_assoc]

/-! ## Ranges in an outline -/

/-- The words in front of a range in an outline. -/
def outlineLabel (n : Node) : String :=
  match n.kind with
  | .versionDecl => "  Version"
  | .moduleDecl => "  Namespace"
  | .functionDecl => "  Function"
  | .param => "    Param"
  | .sequenceType => "    Returns"
  | .enclosedBody => "    Body"
  | .externalBody => "    External"
  | .queryBody => "  QueryBody"
  | kind => "  " ++ kind.label

/-- A line of an outline shows the range of a node. -/
def ShownIn (n : Node) (line : String) : Prop := ∃ rest, line = n.outlineLabel ++ (" [" ++ n.span.text ++ "]") ++ rest

/-- The nodes of which the outline of a function shows the ranges below its own. -/
def outlinedParts (decl : Node) : List Node :=
  decl.params ++ (decl.typeDecl?.bind sequenceType?).toList ++ decl.functionBody?.toList

/-- The nodes of which the outline of a declaration shows the ranges. -/
def outlinedDecl (decl : Node) : List Node := decl :: if decl.kind = .functionDecl then decl.outlinedParts else []

/-- The nodes of which the outline of a module shows the ranges below its first line, from top to bottom. -/
def outlined (root : Node) : List Node :=
  root.versionDecl?.toList ++ root.moduleDecl?.toList ++ root.prolog?.elim [] (fun p => p.decls.flatMap outlinedDecl) ++
    root.queryBody?.toList

variable {decl root : Node}

theorem kind_of_param (h : n ∈ decl.params) : n.kind = .param := by
  unfold params at h
  split at h
  · cases h
  · exact of_decide_eq_true (List.mem_filter.mp h).2

/-- A function holds the type of its result. -/
theorem holds_result (h : decl.typeDecl?.bind sequenceType? = some n) : decl.Holds n ∧ n.kind = .sequenceType := by
  obtain ⟨type, htype, hn⟩ := Option.bind_eq_some_iff.mp h
  have hdecl : decl.Holds decl := .refl
  exact ⟨(hdecl.child htype).child hn, kind_of_child? hn⟩

/-- And its body. -/
theorem holds_body (h : decl.functionBody? = some n) : decl.Holds n ∧ (n.kind = .enclosedBody ∨ n.kind = .externalBody) := by
  have hk : n.isFunctionBody = true := List.find?_some h
  refine ⟨.single (List.mem_of_find?_eq_some h), ?_⟩
  simpa [isFunctionBody] using hk

/-- Each node that is shown below a function is held by it. -/
theorem holds_of_part (h : n ∈ decl.outlinedParts) :
    decl.Holds n ∧ (n.kind = .param ∨ n.kind = .sequenceType ∨ n.kind = .enclosedBody ∨ n.kind = .externalBody) := by
  simp only [outlinedParts, List.mem_append, Option.mem_toList] at h
  rcases h with (hparam | hresult) | hbody
  · exact ⟨holds_param hparam, .inl (kind_of_param hparam)⟩
  · obtain ⟨hholds, hk⟩ := holds_result hresult
    exact ⟨hholds, .inr (.inl hk)⟩
  · obtain ⟨hholds, hk⟩ := holds_body hbody
    exact ⟨hholds, .inr (.inr hk)⟩

/-- Each node that is shown of a module is held by it, and is neither the module nor its prolog. -/
theorem holds_of_outlined (h : n ∈ root.outlined) : root.Holds n ∧ n.kind ≠ .root ∧ n.kind ≠ .prolog := by
  have hroot : root.Holds root := .refl
  have hchild : ∀ {kind : NodeKind}, root.child? kind = some n → kind ≠ .root → kind ≠ .prolog →
      root.Holds n ∧ n.kind ≠ .root ∧ n.kind ≠ .prolog := by
    intro kind hn hne hne'
    rw [kind_of_child? hn]
    exact ⟨hroot.child hn, hne, hne'⟩
  simp only [outlined, List.mem_append, Option.mem_toList] at h
  rcases h with ((hversion | hmodule) | hdecl) | hbody
  · exact hchild hversion (by decide) (by decide)
  · exact hchild hmodule (by decide) (by decide)
  · cases hprolog : root.prolog? with
    | none => simp [hprolog] at hdecl
    | some prolog =>
      rw [hprolog, Option.elim, List.mem_flatMap] at hdecl
      obtain ⟨decl, hmem, hn⟩ := hdecl
      obtain ⟨hmem, hisDecl⟩ := List.mem_filter.mp hmem
      have hdecl : root.Holds decl := (hroot.child hprolog).tail hmem
      rcases List.mem_cons.mp hn with rfl | hn
      · refine ⟨hdecl, ?_, ?_⟩ <;>
          · intro hk
            simp [isDecl, hk, NodeKind.isSetter, NodeKind.isBodyDecl] at hisDecl
      · split at hn
        · obtain ⟨hholds, hkinds⟩ := holds_of_part hn
          refine ⟨hdecl.trans hholds, ?_, ?_⟩ <;>
            · intro hk
              simp [hk] at hkinds
        · cases hn
  · exact hchild hbody (by decide) (by decide)

/-! ## Lines with ranges -/

/-- The lines of what may be missing show its range if each line does. -/
theorem shownIn_toList {n? : Option Node} {line : Node → String} (h : ∀ n, n? = some n → n.ShownIn (line n)) :
    List.Forall₂ ShownIn n?.toList (n?.map line).toList := by
  cases n? with
  | none => exact .nil
  | some n => exact .cons (h n rfl) .nil

/-- A line shows the range if it starts with the words in front of it and the range. -/
theorem shownIn_of {label : String} (h : n.outlineLabel = label) (rest : String) : n.ShownIn (label ++ n.spanText true ++ rest) :=
  ⟨rest, by rw [h]; rfl⟩

/-- And nothing need come behind. -/
theorem shownIn_of_eq {label : String} (h : n.outlineLabel = label) : n.ShownIn (label ++ n.spanText true) := by
  simpa using shownIn_of h ""

theorem version_shown (h : n.kind = .versionDecl) : n.ShownIn (n.versionOutline true) := by
  rw [versionOutline, String.append_assoc]
  exact shownIn_of (by rw [outlineLabel, h]) _

theorem namespace_shown (h : n.kind = .moduleDecl) : n.ShownIn (n.namespaceOutline true) := by
  have hline : n.namespaceOutline true =
      "  Namespace" ++ n.spanText true ++ (" " ++ n.boundPrefix?.getD "" ++ " = " ++ Text.quoted (n.uri?.elim "" literalValue)) := by
    simp only [namespaceOutline, String.append_assoc]
  rw [hline]
  exact shownIn_of (by rw [outlineLabel, h]) _

theorem param_shown (h : n.kind = .param) : n.ShownIn (n.paramOutline true) := by
  rw [paramOutline, String.append_assoc, String.append_assoc]
  exact shownIn_of (by rw [outlineLabel, h]) _

theorem result_shown (h : n.kind = .sequenceType) : n.ShownIn (n.resultOutline true) := by
  rw [resultOutline, String.append_assoc]
  exact shownIn_of (by rw [outlineLabel, h]) _

theorem body_shown (h : n.kind = .enclosedBody ∨ n.kind = .externalBody) : n.ShownIn (n.bodyOutline true) := by
  refine shownIn_of_eq ?_
  rcases h with h | h <;> simp [outlineLabel, h]

/-- Below a function its parameters, the type of its result and its body are shown. -/
theorem parts_shown (decl : Node) :
    List.Forall₂ ShownIn decl.outlinedParts (decl.params.map (paramOutline true) ++
      ((decl.typeDecl?.bind sequenceType?).map (resultOutline true)).toList ++ (decl.functionBody?.map (bodyOutline true)).toList) := by
  have hparams : List.Forall₂ ShownIn decl.params (decl.params.map (paramOutline true)) := by
    rw [List.forall₂_map_right_iff, List.forall₂_same]
    exact fun m hm => param_shown (kind_of_param hm)
  have hresult := shownIn_toList fun m (hm : decl.typeDecl?.bind sequenceType? = some m) => result_shown (holds_result hm).2
  have hbody := shownIn_toList fun m (hm : decl.functionBody? = some m) => body_shown (holds_body hm).2
  exact List.rel_append (List.rel_append hparams hresult) hbody

/-- The outline of a declaration shows the ranges of these nodes. -/
theorem decl_shown (h : decl.isDecl = true) : List.Forall₂ ShownIn decl.outlinedDecl (decl.declOutline true) := by
  by_cases hk : decl.kind = .functionDecl
  · rw [outlinedDecl, declOutline, if_pos hk, if_pos hk]
    exact .cons (shownIn_of (by rw [outlineLabel, hk]) _) decl.parts_shown
  · rw [outlinedDecl, declOutline, if_neg hk, if_neg hk]
    have hlabel : decl.outlineLabel = "  " ++ decl.kind.label := by
      unfold outlineLabel
      split <;> first | rfl | simp_all [isDecl, NodeKind.isSetter, NodeKind.isBodyDecl]
    exact .cons (shownIn_of_eq hlabel) .nil

/-- The outline of a module shows the ranges of the nodes that are shown of it, one in each line below the first. -/
theorem outline_shown (root : Node) : List.Forall₂ ShownIn root.outlined (root.outline true).tail := by
  have hversion := shownIn_toList fun m (hm : root.versionDecl? = some m) => version_shown (kind_of_child? hm)
  have hmodule := shownIn_toList fun m (hm : root.moduleDecl? = some m) => namespace_shown (kind_of_child? hm)
  have hdecls : List.Forall₂ ShownIn (root.prolog?.elim [] fun p => p.decls.flatMap outlinedDecl)
      (root.prolog?.elim [] fun p => p.decls.flatMap (declOutline true)) := by
    cases root.prolog? with
    | none => exact .nil
    | some prolog =>
      have hall : ∀ ds : List Node, (∀ d ∈ ds, d.isDecl = true) →
          List.Forall₂ ShownIn (ds.flatMap outlinedDecl) (ds.flatMap (declOutline true)) := by
        intro ds hds
        induction ds with
        | nil => exact .nil
        | cons d ds ih =>
          obtain ⟨hd, hds⟩ := List.forall_mem_cons.mp hds
          exact List.rel_append (decl_shown hd) (ih hds)
      exact hall _ fun d hd => (List.mem_filter.mp hd).2
  have hbody : List.Forall₂ ShownIn root.queryBody?.toList (root.queryBody?.map fun b => "  QueryBody" ++ b.spanText true).toList := by
    refine shownIn_toList fun m hm => shownIn_of_eq ?_
    have hk : m.kind = .queryBody := kind_of_child? hm
    rw [outlineLabel, hk]
  exact List.rel_append (List.rel_append (List.rel_append hversion hmodule) hdecls) hbody

end Node

namespace Parsed

variable {source : String}

/-- The tree of a source without errors was built so. -/
theorem edged_root (h : (ofSource source).hasErrors = false) :
    (ofSource source).root.Inside (Form.Edged (ofSource source).root.isLibrary) := by
  cases hlibrary : (ofSource source).root.isLibrary with
  | true => exact inside_root h Form.edged_whole
  | false =>
    obtain ⟨o, hb, -⟩ := builds_of_faultless h
    obtain ⟨us, htree, ⟨vs, hvs⟩ | hmain⟩ := hb.library_or_main
    · have hroot : (ofSource source).root.children = us := by rw [root, List.singleton_inj.mp htree]; rfl
      have hsome : (ofSource source).root.isLibrary = true := Node.child?_isSome (hroot.symm ▸ hvs)
      exact absurd (hlibrary.symm.trans hsome) (by simp)
    · rw [root, List.singleton_inj.mp htree]
      have hedged : Form.Edged false true .root Form.mainWhole := by simp [Form.Edged]
      exact ⟨true, _, _, o, hedged, Form.edged_mainWhole, (start_scanned source).1, by simp, hmain⟩

/-- In a source without errors no node other than the root has trivia at its end, and only sequence types, which start right behind `as`, and
the prolog of a library have some at their start, so but for results an outline shows ranges without trivia at their ends. -/
theorem edges_of_faultless (h : (ofSource source).hasErrors = false) :
    (∀ n, (ofSource source).root.Holds n → n.kind ≠ .root →
      n.LastMeant ∧ (n.kind ≠ .sequenceType → (n.kind = .prolog → (ofSource source).root.isLibrary = false) → n.FirstMeant)) ∧
    (∀ n, (ofSource source).root.Holds n → n.kind = .typeDecl →
      ∃ type, n.sequenceType? = some type ∧ type.span = ⟨n.start + 2, n.span.stop⟩) ∧
    List.Forall₂ Node.ShownIn (ofSource source).root.outlined ((ofSource source).root.outline true).tail ∧
    ∀ n ∈ (ofSource source).root.outlined, n.span.stop = n.core.stop ∧ (n.kind ≠ .sequenceType → n.span = n.core) := by
  have hinside := edged_root h
  refine ⟨fun n hn hk => (hinside.holds hn).edges hk, fun n hn hk => (hinside.holds hn).type_start hk, Node.outline_shown _, ?_⟩
  intro n hn
  obtain ⟨hholds, hroot, hprolog⟩ := Node.holds_of_outlined hn
  obtain ⟨hlast, hfirst⟩ := (hinside.holds hholds).edges hroot
  exact ⟨hlast.stop, fun hk => (hfirst hk fun hp => absurd hp hprolog).span_eq_core hlast⟩

set_option maxRecDepth 10000 in
/-- The ranges that are shown of a library module with blanks and comments around its parts. -/
theorem edges_of_spaced :
    (ofSource " module namespace p = 'u' ; (: a :) declare function p:f ( $x ) external (: b :) ; ").hasErrors = false ∧
      (ofSource " module namespace p = 'u' ; (: a :) declare function p:f ( $x ) external (: b :) ; ").root.outlined.map (·.span) =
        [⟨1, 27⟩, ⟨36, 82⟩, ⟨59, 61⟩, ⟨64, 72⟩] ∧
      ∀ n ∈ (ofSource " module namespace p = 'u' ; (: a :) declare function p:f ( $x ) external (: b :) ; ").root.outlined,
        n.span.stop = n.core.stop ∧ (n.kind ≠ .sequenceType → n.span = n.core) := by
  have hclean : (ofSource " module namespace p = 'u' ; (: a :) declare function p:f ( $x ) external (: b :) ; ").hasErrors = false := by
    cbv
  exact ⟨hclean, by cbv, (edges_of_faultless hclean).2.2.2⟩

set_option maxRecDepth 10000 in
/-- A result of which the range starts with the blank behind `as`. -/
theorem result_starts_blank :
    (ofSource "declare function f() as t external;").hasErrors = false ∧
      (ofSource "declare function f() as t external;").root.outline true =
        ["Module [0..35] main", "  Function [0..35] f", "    Returns [23..25] t", "    External [26..34]"] ∧
      ∃ n ∈ (ofSource "declare function f() as t external;").root.outlined,
        (ofSource "declare function f() as t external;").root.Holds n ∧ n.kind = .sequenceType ∧
          n.leaves = [⟨.blank, " "⟩, ⟨.name, "t"⟩] ∧ n.span = ⟨23, 25⟩ ∧ n.core = ⟨24, 25⟩ := by
  have hshown : (ofSource "declare function f() as t external;").root.outlined[1]? =
      some ⟨.sequenceType, [.leaf ⟨.blank, " "⟩, .node .atomicType [.node .qname [.leaf ⟨.name, "t"⟩]]], 23⟩ := by cbv
  have hmem := List.mem_of_getElem? hshown
  exact ⟨by cbv, by cbv, _, hmem, (Node.holds_of_outlined hmem).1, rfl, by cbv, by cbv, by cbv⟩

end Parsed

end QueryStubs
