import Mathlib.Logic.Relation
import QueryStubs.Outline
import QueryStubs.Proofs.Faultless.Functions
import QueryStubs.Proofs.Faultless.Nodes
import QueryStubs.Proofs.Faultless.Texts

/-!
# Outlines tell of the functions of a module

The outline of a source copies texts of its tree, and the module that is read from it is printed from its parts. For a source without errors
the two agree (`Parsed.outline_tells`): the outline has one entry for each function of the module, in order, and the entry is the one that
the function has by itself (`FunctionDecl.entry`). The written form of every sequence type, wherever it stands, is its text without blanks
and comments.
-/

namespace QueryStubs

open Grammar (Form)
open QueryStubs.Tree (constructs meantOf)

/-! ## Entries of an outline -/

namespace Outline

/-- Whether a line starts the entry of a function. -/
def startsFunction (line : String) : Bool := "  Function".toList.isPrefixOf line.toList

/-- Whether a line is a detail of the entry it stands in. -/
def isDetail (line : String) : Bool := "    ".toList.isPrefixOf line.toList

/-- The entries of functions in an outline, each with the details below it. -/
def functionEntries : List String → List (List String)
  | [] => []
  | line :: lines =>
    if startsFunction line then (line :: lines.takeWhile isDetail) :: functionEntries lines else functionEntries lines

/-- A detail does not start an entry. -/
theorem startsFunction_of_isDetail {line : String} (h : isDetail line = true) : startsFunction line = false := by
  obtain ⟨rest, hrest⟩ := List.isPrefixOf_iff_prefix.mp h
  rw [startsFunction, ← hrest]
  rfl

/-- An entry comes before those behind its details. -/
theorem functionEntries_entry {line : String} {details lines : List String} (hline : startsFunction line = true)
    (hdetails : ∀ d ∈ details, isDetail d = true) (hlines : ∀ l ∈ lines.head?, isDetail l = false) :
    functionEntries (line :: (details ++ lines)) = (line :: details) :: functionEntries lines := by
  have htake : (details ++ lines).takeWhile isDetail = details := by
    rw [List.takeWhile_append_of_pos hdetails]
    cases lines with
    | nil => simp
    | cons l lines => simp [hlines l rfl]
  have hrest : functionEntries (details ++ lines) = functionEntries lines := by
    induction details with
    | nil => rfl
    | cons d details ih =>
      obtain ⟨hd, hdetails⟩ := List.forall_mem_cons.mp hdetails
      have htake : (details ++ lines).takeWhile isDetail = details := by simpa [hd] using htake
      rw [List.cons_append, functionEntries, startsFunction_of_isDetail hd]
      exact ih hdetails htake
  rw [functionEntries, if_pos hline, htake, hrest]

/-- Lines that start no entry are passed over. -/
theorem functionEntries_append {front lines : List String} (h : ∀ l ∈ front, startsFunction l = false) :
    functionEntries (front ++ lines) = functionEntries lines := by
  induction front with
  | nil => rfl
  | cons l front ih =>
    obtain ⟨hl, hfront⟩ := List.forall_mem_cons.mp h
    rw [List.cons_append, functionEntries, hl]
    exact ih hfront

end Outline

open Outline

/-- The line of a parameter. -/
def Param.line (p : Param) : String := "    Param $" ++ p.name.text ++ p.type.elim "" (" as " ++ ·.text)

/-- The line of a body. -/
def FunctionBody.line : FunctionBody → String
  | enclosed => "    Body"
  | external => "    External"

/-- The entry of a function: its name, a line for each parameter, one for its result where there is a type of it, and one for its body. -/
def FunctionDecl.entry (f : FunctionDecl) : List String :=
  ("  Function " ++ f.name.text) ::
    (f.params.map Param.line ++ (f.returnType.map fun t => "    Returns " ++ t.text).toList ++ [f.body.line])

namespace Node

variable {n : Node}

/-! ## Functions -/

/-- The name of a node that has one, as the node has it and as it is read. -/
theorem qname_text {us : List Tree} (hc : (constructs n.children).find? (·.1 = .qname) = some (.qname, us)) (hus : NameMade us)
    (hs : n.Spelled) {m : Node} {q : QName} (hm : n.qname? = some m) (hq : m.toQName? = some q) : m.text = q.text := by
  obtain ⟨rfl, htext⟩ := qname_written hc hus hs hm hq
  rw [text, leaves_of_name hus, htext]

/-- The outline of a parameter is the line of the parameter that is read. -/
theorem param_outline (h : ParamMade n.children) (hs : n.Spelled) {p : Param} (hp : n.toParam? = some p) :
    n.paramOutline false = p.line := by
  obtain ⟨names, types, hc, hmade, -⟩ := constructs_of_param h
  obtain ⟨⟨m, hm, hq⟩, ht⟩ := readsParam hp
  have hname := qname_text (by rw [hc]; rfl) hmade hs hm hq
  have htype := declared_written (types_of_param h) hs ht
  rw [paramOutline, hm, Param.line]
  generalize n.typeDecl?.bind sequenceType? = declared at htype
  generalize p.type = type at htype
  cases htype with
  | none => simp [spanText, ListingOptions.spanText, hname]
  | some htext => simp [spanText, ListingOptions.spanText, hname, compactText_eq, htext.text]

/-- The outline of a body is the line of what is read from it. -/
theorem body_outline (n : Node) : n.bodyOutline false = n.toFunctionBody.line := by
  unfold bodyOutline toFunctionBody
  split <;> simp [spanText, ListingOptions.spanText, FunctionBody.line]

/-- The outline of a function is the entry of the function that is read. -/
theorem function_outline (h : FunctionMade n.children) (hs : n.Spelled) {f : FunctionDecl} (hf : n.toFunctionDecl? = some f) :
    n.functionOutline false = f.entry := by
  obtain ⟨names, params, types, body, bodyRow, hc, hmade, -⟩ := constructs_of_function h
  obtain ⟨hparams, -⟩ := paramCount_of_makes h
  obtain ⟨⟨m, hm, hq⟩, hps, ht, ⟨b, hb, hbody⟩, -⟩ := readsFunction hf
  have hname := qname_text (by rw [hc]; rfl) hmade hs hm hq
  have hlines : n.params.map (paramOutline false) = f.params.map Param.line := by
    obtain ⟨ps', hps', hall⟩ : ∃ ps', n.params.mapM toParam? = some ps' ∧
        List.Forall₂ (fun (m : Node) (p : Param) => m.paramOutline false = p.line) n.params ps' :=
      mapM_eq_some fun m hm => (param_of_makes (hparams m hm)).imp fun p hp =>
        ⟨hp.read, param_outline (hparams m hm) (hs.params m hm) hp.read⟩
    obtain rfl : f.params = ps' := Option.some.inj (hps.symm.trans hps')
    exact List.forall₂_eq_eq_eq ▸ List.forall₂_map_left_iff.mpr (List.forall₂_map_right_iff.mpr hall)
  have htype := declared_written (types_of_function h) hs ht
  have hhead : "  Function" ++ (" " ++ f.name.text) = "  Function " ++ f.name.text := by
    rw [← String.append_assoc]
    rfl
  rw [functionOutline, hm, hlines, hb, FunctionDecl.entry, hbody]
  generalize n.typeDecl?.bind sequenceType? = declared at htype
  generalize f.returnType = result at htype
  cases htype with
  | none => simp [spanText, ListingOptions.spanText, hname, hhead, body_outline]
  | some htext => simp [spanText, ListingOptions.spanText, hname, hhead, body_outline, resultOutline, compactText_eq, htext.text]

/-! ## Declarations -/

/-- The outline of a declaration starts with a line that is no detail. -/
theorem declOutline_head (n : Node) (lines : List String) : ∀ l ∈ (n.declOutline false ++ lines).head?, isDetail l = false := by
  unfold declOutline
  split
  · rintro _ ⟨⟩
    rw [isDetail, String.toList_append, String.toList_append]
    rfl
  · rintro _ ⟨⟩
    simp only [spanText, ListingOptions.spanText, isDetail, String.toList_append]
    cases n.kind <;> rfl

/-- The outline of another declaration than a function starts no entry. -/
theorem declOutline_other (h : n.kind ≠ .functionDecl) : ∀ l ∈ n.declOutline false, startsFunction l = false := by
  rw [declOutline, if_neg h]
  intro l hl
  rw [List.mem_singleton.mp hl]
  simp only [spanText, ListingOptions.spanText, startsFunction, String.toList_append]
  cases hk : n.kind <;> first | rfl | exact absurd hk h

end Node

/-- The entry of a function is a line that starts one, and details. -/
theorem FunctionDecl.entry_lines (f : FunctionDecl) :
    ∃ line details, f.entry = line :: details ∧ startsFunction line = true ∧ ∀ d ∈ details, isDetail d = true := by
  refine ⟨_, _, rfl, ?_, fun d hd => ?_⟩
  · rw [startsFunction, String.toList_append]
    rfl
  · simp only [List.mem_append, List.mem_map, Option.mem_toList, Option.map_eq_some_iff, List.mem_singleton] at hd
    rcases hd with (⟨p, -, rfl⟩ | ⟨t, -, rfl⟩) | rfl
    · rw [Param.line, isDetail, String.toList_append, String.toList_append]
      rfl
    · rw [isDetail, String.toList_append]
      rfl
    · cases f.body <;> rfl

namespace Node

/-- Lines in front of which declarations are outlined do not start with a detail either. -/
theorem outlines_head (ns : List Node) {lines : List String} (h : ∀ l ∈ lines.head?, isDetail l = false) :
    ∀ l ∈ (ns.flatMap (declOutline false) ++ lines).head?, isDetail l = false := by
  cases ns with
  | nil => exact h
  | cons n ns =>
    rw [List.flatMap_cons, List.append_assoc]
    exact n.declOutline_head _

/-- The entries in the outlines of declarations are those of the functions that are read from them. -/
theorem functionEntries_decls {ns : List Node}
    (h : ∀ n ∈ ns, n.kind = .functionDecl → ∃ f, n.toFunctionDecl? = some f ∧ n.functionOutline false = f.entry) {lines : List String}
    (hlines : ∀ l ∈ lines.head?, isDetail l = false) :
    functionEntries ((ns.filter isDecl).flatMap (declOutline false) ++ lines) =
      ((ns.filter (·.kind = .functionDecl)).filterMap toFunctionDecl?).map FunctionDecl.entry ++ functionEntries lines := by
  induction ns with
  | nil => rfl
  | cons n ns ih =>
    obtain ⟨hn, hns⟩ := List.forall_mem_cons.mp h
    by_cases hk : n.kind = .functionDecl
    · obtain ⟨f, hf, houtline⟩ := hn hk
      obtain ⟨line, details, hentry, hline, hdetails⟩ := f.entry_lines
      have hdecl : n.isDecl = true := by simp [isDecl, hk, NodeKind.isSetter, NodeKind.isBodyDecl]
      have hshown : n.declOutline false = line :: details := by rw [declOutline, if_pos hk, houtline, hentry]
      rw [List.filter_cons_of_pos hdecl, List.flatMap_cons, hshown, List.append_assoc, List.cons_append,
        functionEntries_entry hline hdetails (outlines_head _ hlines), ih hns]
      simp [hk, hf, hentry]
    · have hskip : (n :: ns).filter (·.kind = .functionDecl) = ns.filter (·.kind = .functionDecl) := by simp [hk]
      rw [hskip]
      by_cases hdecl : n.isDecl = true
      · rw [List.filter_cons_of_pos hdecl, List.flatMap_cons, List.append_assoc, functionEntries_append (declOutline_other hk), ih hns]
      · rw [List.filter_cons_of_neg hdecl, ih hns]

/-- The lines of an outline before and behind those of the declarations start no entry and are no details. -/
theorem outline_lines (root : Node) :
    ∃ front back, root.outline false = front ++ (root.prolog?.elim [] (fun p => p.decls.flatMap (declOutline false)) ++ back) ∧
      (∀ l ∈ front, startsFunction l = false) ∧ ∀ l ∈ back, startsFunction l = false ∧ isDetail l = false := by
  refine ⟨("Module" ++ root.spanText false ++ (if root.isLibrary then " library" else " main")) ::
    ((root.versionDecl?.map (versionOutline false)).toList ++ (root.moduleDecl?.map (namespaceOutline false)).toList),
    (root.queryBody?.map fun b => "  QueryBody" ++ b.spanText false).toList, ?_, fun l hl => ?_, fun l hl => ?_⟩
  · simp [outline]
  · simp only [List.mem_cons, List.mem_append, Option.mem_toList, Option.map_eq_some_iff] at hl
    rcases hl with rfl | ⟨v, -, rfl⟩ | ⟨m, -, rfl⟩
    · simp only [startsFunction, String.toList_append]
      rfl
    · simp only [versionOutline, startsFunction, String.toList_append]
      rfl
    · simp only [namespaceOutline, startsFunction, String.toList_append]
      rfl
  · simp only [Option.mem_toList, Option.map_eq_some_iff] at hl
    obtain ⟨b, -, rfl⟩ := hl
    simp only [startsFunction, isDetail, String.toList_append]
    exact ⟨rfl, rfl⟩

/-- A node that is some part of another, or a part of a part of it, and so on. -/
def Holds (n m : Node) : Prop := Relation.ReflTransGen (fun outer inner => inner ∈ outer.nodes) n m

end Node

/-! ## Sequence types -/

namespace Grammar

/-- The sequence types in a form are of the form of item types. -/
def Form.Typed (f : Form) : Prop := f.Every fun _ kind g => kind = .sequenceType → g = .itemType

/-- A construct of a row that such a form makes is made by such a form, and by that of item types if it is a sequence type. -/
theorem Form.Makes.typed {f : Form} {ts : List Tree} (h : f.Makes ts) (hf : f.Typed) :
    ∀ c ∈ constructs ts, ∃ g : Form, g.Makes c.2 ∧ g.Typed ∧ (c.1 = .sequenceType → g = .itemType) := by
  induction f generalizing ts with
  | nothing | one | keyword | prefixed | run | trivia => simp [h.flat rfl]
  | seq f g ih ih' =>
    obtain ⟨us, vs, rfl, hus, hvs⟩ := h
    rw [Tree.constructs_append]
    exact List.forall_mem_append.mpr ⟨ih hus hf.1, ih' hvs hf.2⟩
  | either f g ih ih' =>
    rcases h with h | h
    · exact ih h hf.1
    · exact ih' h hf.2
  | many f ih =>
    obtain ⟨rows, rfl, hrows⟩ := h
    induction rows with
    | nil => exact List.forall_mem_nil _
    | cons row rows ihr =>
      obtain ⟨hrow, hrows⟩ := List.forall_mem_cons.mp hrows
      rw [List.flatten_cons, Tree.constructs_append]
      exact List.forall_mem_append.mpr ⟨ih hrow hf, ihr hrows⟩
  | node kind f =>
    obtain ⟨us, hc, hus, -⟩ := h.node
    rw [hc]
    exact List.forall_mem_singleton.mpr ⟨f, hus, hf.2, hf.1⟩
  | leadNode kind f =>
    obtain ⟨us, rfl, hus⟩ := h
    exact List.forall_mem_singleton.mpr ⟨f, hus, hf.2, hf.1⟩
  | guard T f ih => exact ih h hf

/-- The form of modules is typed. -/
theorem Form.typed_whole : Form.whole.Typed := by
  refine Nodes.every_whole (fun kind _ hk => ?_) nofun
  rw [hk]
  rfl

end Grammar

/-- What a node is made of that a typed form made, or that is held by such a node. -/
def Node.TypedMade (n : Node) : Prop := ∃ g : Form, g.Makes n.children ∧ g.Typed ∧ (n.kind = .sequenceType → g = .itemType)

/-- The nodes that are held by such a node are such nodes. -/
theorem Node.TypedMade.holds {n m : Node} (h : n.TypedMade) (hs : n.Spelled) (hm : n.Holds m) : m.TypedMade ∧ m.Spelled := by
  induction hm with
  | refl => exact ⟨h, hs⟩
  | @tail k m _ hm ih =>
    obtain ⟨⟨g, hg, htyped, -⟩, hs⟩ := ih
    exact ⟨hg.typed htyped m.construct (k.constructs_eq ▸ List.mem_map_of_mem hm), hs.of_mem hm⟩

namespace Parsed

variable {source : String}

/-- The top of the tree of a source without errors is such a node. -/
theorem typedMade_root (h : (ofSource source).hasErrors = false) : (ofSource source).root.TypedMade := by
  obtain ⟨us, htree, hus⟩ := makes_tree h
  have htree : (ofSource source).tree = .node .root us := List.singleton_inj.mp htree
  rw [root, htree]
  exact ⟨_, hus, Form.typed_whole.2, by simp [Node.ofTree]⟩

/-- The outline of a source without errors has the entries of the functions that are read from it. -/
theorem functionEntries_outline (h : (ofSource source).hasErrors = false) :
    functionEntries ((ofSource source).root.outline false) = (ofSource source).module.functions.map FunctionDecl.entry := by
  obtain ⟨prolog, hprolog, hdecls⟩ := prolog_of_faultless h
  have hspelled : prolog.Spelled := (spelled_root source).of_child? hprolog
  have hread : ∀ n ∈ prolog.nodes, n.kind = .functionDecl → ∃ f, n.toFunctionDecl? = some f ∧ n.functionOutline false = f.entry := by
    intro n hn hk
    obtain ⟨f, hf, -⟩ := Node.functions_of_makes hdecls n (List.mem_filter.mpr ⟨hn, by simp [hk]⟩)
    have hmade := (hdecls.2 n.construct (prolog.constructs_eq ▸ List.mem_map_of_mem hn)).2
    rw [Node.construct, hk] at hmade
    exact ⟨f, hf, Node.function_outline hmade (hspelled.of_mem hn) hf⟩
  obtain ⟨front, back, houtline, hfront, hback⟩ := Node.outline_lines (ofSource source).root
  have hhead : ∀ l ∈ back.head?, isDetail l = false := fun l hl => (hback l (List.mem_of_mem_head? hl)).2
  have hnone : functionEntries back = [] := by
    have h : functionEntries (back ++ []) = [] := functionEntries_append fun l hl => (hback l hl).1
    rwa [List.append_nil] at h
  rw [houtline, functionEntries_append hfront, hprolog, Option.elim, Node.decls, Node.functionEntries_decls hread hhead, hnone,
    List.append_nil, functions_root hprolog]
  rfl

/-- Outlines tell of the functions of a module. -/
theorem outline_tells (h : (ofSource source).hasErrors = false) :
    functionEntries ((ofSource source).root.outline false) = (ofSource source).module.functions.map FunctionDecl.entry ∧
      ∀ n, (ofSource source).root.Holds n → n.kind = .sequenceType → ∃ t, n.toSequenceType? = some t ∧ n.compactText = t.text := by
  refine ⟨functionEntries_outline h, fun n hn hk => ?_⟩
  obtain ⟨⟨g, hg, -, hitem⟩, hs⟩ := (typedMade_root h).holds (spelled_root source) hn
  obtain rfl := hitem hk
  obtain ⟨t, ht⟩ := Node.sequenceType_of_makes hg
  exact ⟨t, ht, n.compactText_eq.trans (Node.type_written hg hs ht).text⟩

set_option maxRecDepth 10000 in
/-- The entry of a function with blanks and comments between the tokens of its types. -/
theorem outline_tells_spaced :
    (ofSource "declare function p:f($a as element( (: any :) x ) * ) as item ( ) external;").hasErrors = false ∧
      functionEntries ((ofSource "declare function p:f($a as element( (: any :) x ) * ) as item ( ) external;").root.outline false) =
        [["  Function p:f", "    Param $a as element(x)*", "    Returns item()", "    External"]] := by
  have hclean : (ofSource "declare function p:f($a as element( (: any :) x ) * ) as item ( ) external;").hasErrors = false := by cbv
  refine ⟨hclean, ?_⟩
  rw [(outline_tells hclean).1]
  cbv

end Parsed

end QueryStubs
