import QueryStubs.Proofs.Faultless.Made

/-!
# The nodes of the grammar

Every node that a module can have without errors is named once here, with its kind and the form of what is inside it (`Form.Nodes`). A
property of these is one of every node in a form, however deep (`Form.Every`): of those in a declaration, in a prolog, and in a whole module
(`Form.every_whole`).
-/

namespace QueryStubs.Grammar.Form

/-- `P` holds of every node in a form, at any depth: of its kind, of the form of what is inside it, and of whether trivia in front of it
belong to it. -/
def Every (P : Bool → NodeKind → Form → Prop) : Form → Prop
  | .seq f g | .either f g => f.Every P ∧ g.Every P
  | .many f | .guard _ f => f.Every P
  | .node kind f => P false kind f ∧ f.Every P
  | .leadNode kind f => P true kind f ∧ f.Every P
  | .nothing | .one _ | .keyword _ | .prefixed | .run _ | .trivia => True

/-- What is inside a node. Nothing else is inside one of its kind, wherever it stands. -/
def inside : NodeKind → Form
  | .root => row [version, .either libraryModule (.guard (¬ StartsModule ·) mainModule), .trivia]
  | .versionDecl => .seq versionBody (mark .semicolon)
  | .moduleDecl => .seq moduleBody (mark .semicolon)
  | .prolog => prolog
  | .queryBody => .run fun ks => ks ≠ [] ∧ Balanced .braceOpen .braceClose ks
  | .str => .either (literalIn .doubleQuote) (literalIn .singleQuote)
  | .qname => .either .prefixed (mark .name)
  | .typeDecl => .seq (word "as") (.leadNode .sequenceType itemType)
  | .sequenceType => itemType
  | .atomicType => qname
  | .emptySequence => row [word "empty-sequence", mark .parenOpen, mark .parenClose]
  | .anyItem => row [word "item", mark .parenOpen, mark .parenClose]
  | .kindTest => .seq (.keyword kindTestNames) (bracketed .parenOpen .parenClose)
  | .occurrence => .one TokenKind.isOccurrence
  | .param => row [mark .dollar, qname, optional typeDecl]
  | .paramList => row [mark .parenOpen, optional (listOf param), mark .parenClose]
  | .enclosedBody => bracketed .braceOpen .braceClose
  | .externalBody => word "external"
  | .varValue => row [mark .colonEquals, .run ValueKinds]
  | kind => .seq (declBody kind) (mark .semicolon)

/-- Whether the trivia in front of a node belong to it. In front of a prolog they do only behind a module declaration. -/
def leads : NodeKind → Bool
  | .root | .sequenceType => true
  | _ => false

/-- `P` holds of the nodes of the grammar, other than the prolog. -/
def Nodes (P : Bool → NodeKind → Form → Prop) : Prop := ∀ kind, kind ≠ .prolog → P (leads kind) kind (inside kind)

/-- What is inside a declaration is its body and a semicolon. -/
theorem inside_decl {kind : NodeKind} (h : kind ∈ setterKinds ++ otherKinds) :
    kind ≠ .prolog ∧ leads kind = false ∧ inside kind = .seq (declBody kind) (mark .semicolon) := by
  cases kind <;> first | exact ⟨nofun, rfl, rfl⟩ | exact absurd h (by decide)

section

variable {P : Bool → NodeKind → Form → Prop}

/-- It holds of every node where there is none. -/
theorem every_of_flat {f : Form} (h : f.kinds = []) : f.Every P := by
  induction f with
  | nothing | one | keyword | prefixed | run | trivia => trivial
  | seq f g ih ih' | either f g ih ih' =>
    obtain ⟨hf, hg⟩ := List.append_eq_nil_iff.mp h
    exact ⟨ih hf, ih' hg⟩
  | many f ih | guard T f ih => exact ih h
  | node kind f | leadNode kind f => cases h

namespace Nodes

variable (h : Nodes P)

include h

theorem every_str : Form.str.Every P := ⟨h .str nofun, every_of_flat rfl⟩

theorem every_qname : Form.qname.Every P := ⟨h .qname nofun, every_of_flat rfl⟩

theorem every_occurrence : Form.occurrence.Every P := ⟨⟨h .occurrence nofun, trivial⟩, trivial⟩

/-- It holds of every node in an item type. -/
theorem every_itemType : itemType.Every P :=
  ⟨⟨⟨h .atomicType nofun, h.every_qname⟩, h.every_occurrence⟩, ⟨h .emptySequence nofun, every_of_flat rfl⟩,
    ⟨⟨h .anyItem nofun, every_of_flat rfl⟩, h.every_occurrence⟩, ⟨⟨h .kindTest nofun, every_of_flat rfl⟩, h.every_occurrence⟩, trivial⟩

/-- It holds of every node in a declared type. -/
theorem every_typeDecl : Form.typeDecl.Every P := ⟨h .typeDecl nofun, trivial, h .sequenceType nofun, h.every_itemType⟩

theorem every_optionalType : (optional Form.typeDecl).Every P := ⟨h.every_typeDecl, trivial⟩

/-- It holds of every node in a parameter. -/
theorem every_param : Form.param.Every P := ⟨h .param nofun, trivial, h.every_qname, h.every_optionalType⟩

/-- It holds of every node in a list of parameters. -/
theorem every_paramList : Form.paramList.Every P := ⟨h .paramList nofun, trivial, ⟨⟨h.every_param, trivial, h.every_param⟩, trivial⟩, trivial⟩

/-- It holds of every node in what follows the words of a function. -/
theorem every_functionRest : functionRest.Every P :=
  ⟨h.every_qname, h.every_paramList, h.every_optionalType, ⟨h .enclosedBody nofun, every_of_flat rfl⟩, ⟨h .externalBody nofun, trivial⟩⟩

/-- It holds of every node in what follows the words of a variable. -/
theorem every_varRest : varRest.Every P := by
  have hvalue : Form.varValue.Every P := ⟨h .varValue nofun, every_of_flat rfl⟩
  exact ⟨trivial, h.every_qname, h.every_optionalType, hvalue, trivial, hvalue, trivial⟩

/-- It holds of every node in the locations of an import. -/
theorem every_locations : locations.Every P := ⟨⟨trivial, h.every_str, trivial, h.every_str⟩, trivial⟩

/-- It holds of every node in what follows the words of a declaration. -/
theorem every_declRest (kind : NodeKind) : (declRest kind).Every P := by
  cases kind with
  | defaultCollationDecl | baseUriDecl => exact h.every_str
  | namespaceDecl | defaultNamespaceDecl => exact ⟨every_of_flat rfl, h.every_str⟩
  | schemaImport | moduleImport => exact ⟨every_of_flat rfl, h.every_str, h.every_locations⟩
  | varDecl => exact h.every_varRest
  | functionDecl => exact h.every_functionRest
  | optionDecl => exact ⟨h.every_qname, h.every_str⟩
  | _ => exact every_of_flat rfl

/-- It holds of every node in a declaration. -/
theorem every_declared {kind : NodeKind} (hk : kind ∈ setterKinds ++ otherKinds) : (declared kind (declBody kind)).Every P := by
  have hwords : ∀ wss, (keywords wss).Every P := by
    intro wss
    induction wss with
    | nil => trivial
    | cons ws wss ih => exact ⟨trivial, ih⟩
  obtain ⟨hne, hleads, hinside⟩ := inside_decl hk
  have hdecl := h kind hne
  rw [hleads, hinside] at hdecl
  exact ⟨hdecl, ⟨hwords _, h.every_declRest kind⟩, trivial⟩

/-- It holds of every node in a prolog. -/
theorem every_prolog : prolog.Every P := by
  have hkinds : ∀ {kinds : List NodeKind}, (∀ kind ∈ kinds, (declared kind (declBody kind)).Every P) → (declOf kinds).Every P := by
    intro kinds hall
    induction kinds with
    | nil => trivial
    | cons kind kinds ih =>
      obtain ⟨hkind, hkinds⟩ := List.forall_mem_cons.mp hall
      exact ⟨hkind, ih hkinds⟩
  obtain ⟨hsetters, hothers⟩ := List.forall_mem_append.mp fun kind hk => h.every_declared hk
  exact ⟨hkinds hsetters, hkinds hothers⟩

/-- It holds of every node in a version declaration. -/
theorem every_version : version.Every P :=
  ⟨⟨h .versionDecl nofun, ⟨trivial, ⟨trivial, h.every_str, ⟨trivial, h.every_str⟩, trivial⟩, trivial, h.every_str⟩, trivial⟩, trivial⟩

/-- It holds of every node in a module declaration. -/
theorem every_moduleDecl : (declared .moduleDecl moduleBody).Every P :=
  ⟨h .moduleDecl nofun, ⟨every_of_flat rfl, trivial, trivial, h.every_str⟩, trivial⟩

/-- It holds of every node in a main module if it also does of the prolog. -/
theorem every_mainModule (hp : P false .prolog prolog) : mainModule.Every P := ⟨⟨hp, h.every_prolog⟩, ⟨h .queryBody nofun, trivial⟩, trivial⟩

/-- So it does of every node in a whole module. -/
theorem every_whole (hp : ∀ led, P led .prolog prolog) : whole.Every P :=
  ⟨h .root nofun, h.every_version, ⟨⟨h.every_moduleDecl, hp true, h.every_prolog⟩, h.every_mainModule (hp false)⟩, trivial⟩

/-- It holds of every node inside one of the grammar other than the root. -/
theorem every_inside {kind : NodeKind} (hk : kind ≠ .root) : (inside kind).Every P := by
  cases kind with
  | root => exact absurd rfl hk
  | versionDecl => exact h.every_version.1.2
  | moduleDecl => exact h.every_moduleDecl.2
  | prolog => exact h.every_prolog
  | typeDecl => exact h.every_typeDecl.2
  | sequenceType => exact h.every_itemType
  | atomicType => exact h.every_qname
  | paramList => exact h.every_paramList.2
  | param => exact h.every_param.2
  | error | kindTest | anyItem | emptySequence | occurrence | enclosedBody | externalBody | varValue | qname | str | queryBody =>
    exact every_of_flat rfl
  | _ => exact (h.every_declared (by decide)).2

end Nodes

end

end QueryStubs.Grammar.Form
