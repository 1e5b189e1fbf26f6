import Mathlib.Data.List.Forall2
import QueryStubs.Proofs.Emission.Grouping
import QueryStubs.Proofs.Emission.Lines
import QueryStubs.Proofs.Views.Rows
import QueryStubs.Stub.Emit

/-!
# When stubs are written and when not

What is at fault in a module is listed here without regard to how stubs are written: `FunctionDecl.faults` lists the faults of a function,
and `Module.faults` those of a module, which are the faults of its functions in source order and then the containers that would have a name
that an earlier one has. The answer is the first fault of the list if there is any, and else a text in which every type is the one that
its sequence type stands for (`Module.emit_rule`). What that text is to be is said here as well, line by line and sign by sign
(`Stub.written`, `Stub.containerLines`); none of it names a function that writes stubs.

`Answers` says of a part of the writing what the theorem says of the whole. It is kept by one part after another and by lists of parts.
-/

namespace QueryStubs

/-! ## What is at fault -/

/-- The elements of a list that an earlier element is equal to, in order. -/
def repeats (xs : List String) : List String := (xs.zipIdx.filter fun (x, i) => x ∈ xs.take i).map (·.1)

/-- The type of the table for an item type, which only the name of an atomic type can have. -/
def ItemType.target? (c : Config) : ItemType → Option String
  | .atomic name => c.types.get? name.text
  | _ => none

/-- What is at fault in a sequence type: that its item type has no type, and that it admits one or more items. -/
def SequenceType.faults (c : Config) (function : String) (t : SequenceType) : List StubFault :=
  (if t.item.target? c = none then [.unsupportedType function t.item.text] else []) ++
    if t.occurrence = .oneOrMore then [.unsupportedOccurrence function .oneOrMore] else []

/-- What is at fault in the type of a parameter, or of the result if none is named. -/
def SequenceType.faultsOf (c : Config) (function : String) (param : Option String) : Option SequenceType → List StubFault
  | none => [.missingType function param]
  | some t => t.faults c function

/-- What is at fault in a function: first the parameters with a local name of an earlier one, then types. -/
def FunctionDecl.faults (c : Config) (f : FunctionDecl) : List StubFault :=
  (repeats (f.params.map (·.name.localPart))).map (.duplicateParameter f.name.text) ++
    (f.params.flatMap fun p => SequenceType.faultsOf c f.name.text (some p.name.localPart) p.type) ++
      SequenceType.faultsOf c f.name.text none f.returnType

/-- The name of the container for a prefix: the prefix with its first character as a capital. Functions without a prefix have a container of
their own. -/
def Config.containerName (c : Config) (p : String) : String :=
  match p.toList with
  | [] => c.defaultObject
  | first :: rest => String.ofList (Text.upperChar first ++ rest)

/-- The names of the containers of a module, in order. -/
def Module.containerNames (c : Config) (m : Module) : List String := (FunctionDecl.prefixes m.functions).map c.containerName

/-- What is at fault in a module: the faults of its functions in source order, then the containers with a name of an earlier one. -/
def Module.faults (c : Config) (m : Module) : List StubFault :=
  m.functions.flatMap (·.faults c) ++ (repeats (m.containerNames c)).map .duplicateContainer

/-! ## What is written -/

/-- The brackets that stand before and behind the argument of a type. -/
def Brackets.pair : Brackets → String × String
  | angle => ("<", ">")
  | square => ("[", "]")

/-- The type that a sequence type stands for: the type of the table, an option of it, or an option of an array of it. -/
inductive SequenceType.Target (c : Config) : SequenceType → String → Prop
  | exactlyOne {item : ItemType} {type : String} : item.target? c = some type → Target c ⟨item, .exactlyOne⟩ type
  | optional {item : ItemType} {type : String} : item.target? c = some type →
      Target c ⟨item, .optional⟩ ("Option" ++ c.brackets.pair.1 ++ type ++ c.brackets.pair.2)
  | zeroOrMore {item : ItemType} {type : String} : item.target? c = some type →
      Target c ⟨item, .zeroOrMore⟩
        ("Option" ++ c.brackets.pair.1 ++ "Array" ++ c.brackets.pair.1 ++ type ++ c.brackets.pair.2 ++ c.brackets.pair.2)

/-- The type of a parameter or a result stands in the source, and a type stands for it. -/
def SequenceType.TargetOf (c : Config) (t : Option SequenceType) (type : String) : Prop := ∃ u, t = some u ∧ u.Target c type

/-- A stub of a function. -/
structure FunctionDecl.HasStub (c : Config) (f : FunctionDecl) (s : Stub) : Prop where
  name : s.name = Text.camelCase '-' f.name.localPart
  params : List.Forall₂ (fun p q => q.1 = p.name.localPart ∧ SequenceType.TargetOf c p.type q.2) f.params s.params
  returnType : SequenceType.TargetOf c f.returnType s.returnType

/-- A type has one target at most. -/
theorem SequenceType.Target.unique {c : Config} {t : SequenceType} {type other : String} (h : t.Target c type)
    (h' : t.Target c other) : type = other := by
  cases h
  all_goals
    rename_i htype
    cases h'
    rename_i hother
    rw [htype] at hother
    cases hother
    rfl

/-- It has one at most where it may be left out. -/
theorem SequenceType.TargetOf.unique {c : Config} {t : Option SequenceType} {type other : String} (h : TargetOf c t type)
    (h' : TargetOf c t other) : type = other := by
  obtain ⟨u, hu, htype⟩ := h
  obtain ⟨v, hv, hother⟩ := h'
  rw [hu] at hv
  cases hv
  exact htype.unique hother

/-- A function has one stub. -/
theorem FunctionDecl.HasStub.unique {c : Config} {f : FunctionDecl} {s s' : Stub} (h : f.HasStub c s) (h' : f.HasStub c s') :
    s = s' := by
  have hparams : s.params = s'.params := by
    refine List.right_unique_forall₂' ?_ h.params h'.params
    rintro p ⟨name, type⟩ ⟨name', type'⟩ ⟨hname, htype⟩ ⟨hname', htype'⟩
    exact Prod.ext (hname.trans hname'.symm) (htype.unique htype')
  have hname : s.name = s'.name := h.name.trans h'.name.symm
  have hreturn : s.returnType = s'.returnType := h.returnType.unique h'.returnType
  cases s
  cases s'
  simp_all

/-- A parameter with its type. -/
def Stub.writtenParam (p : Palette) (param : String × String) : String :=
  param.1 ++ p.dim ++ ":" ++ p.reset ++ " " ++ p.green ++ param.2 ++ p.reset

/-- The line of a stub: its name, its parameters with their types, the type of its result and what stands for its body, with a style switched
on before each sign and switched off behind it. -/
def Stub.written (c : Config) (s : Stub) : String :=
  let p := c.palette
  c.indent ++ p.dim ++ "def" ++ p.reset ++ " " ++ p.blue ++ s.name ++ p.reset ++ p.dim ++ "(" ++ p.reset ++
    String.intercalate (p.dim ++ ", " ++ p.reset) (s.params.map (writtenParam p)) ++
    p.dim ++ ")" ++ p.reset ++ ": " ++ p.green ++ s.returnType ++ p.reset ++ " " ++ p.dim ++ "=" ++ p.reset ++ " " ++ c.placeholder

/-- The lines of a container: one that opens it, one for each stub, and one that closes it. -/
def Stub.containerLines (c : Config) (name : String) (stubs : List Stub) : List String :=
  let p := c.palette
  (p.dim ++ "object" ++ p.reset ++ " " ++ p.blue ++ name ++ p.reset ++ " " ++ p.dim ++ "\x7b" ++ p.reset) ::
    (stubs.map (written c) ++ [p.dim ++ "\x7d" ++ p.reset])

/-- The container for a prefix, with a stub for each function that has it. -/
def Module.HasContainer (c : Config) (m : Module) (p : String) (text : String) : Prop :=
  ∃ stubs, List.Forall₂ (FunctionDecl.HasStub c) (FunctionDecl.withPrefix m.functions p) stubs ∧
    text = Text.unlines (Stub.containerLines c (c.containerName p) stubs)

/-- The text of a module: a container for each prefix, with an empty line between containers. -/
def Module.HasText (c : Config) (m : Module) (text : String) : Prop :=
  ∃ containers, List.Forall₂ (m.HasContainer c) (FunctionDecl.prefixes m.functions) containers ∧
    text = String.intercalate "\n" containers

/-! ## Answers of parts -/

/-- A part answers with its first fault, or, if it has none, with something of which `P` holds. -/
def Answers {α : Type} (faults : List StubFault) (P : α → Prop) (r : Except StubFault α) : Prop :=
  match faults with
  | [] => ∃ a, r = .ok a ∧ P a
  | fault :: _ => r = .error fault

namespace Answers

variable {α β : Type} {P Q : α → Prop} {R : β → Prop} {fs gs : List StubFault}

/-- Without faults a result is a good answer. -/
theorem ok {a : α} (h : P a) : Answers [] P (.ok a) := ⟨a, rfl, h⟩

/-- Of a good answer less may be said. -/
theorem mono {r : Except StubFault α} (h : Answers fs P r) (hpq : ∀ a, P a → Q a) : Answers fs Q r := by
  cases fs with
  | nil =>
    obtain ⟨a, hr, ha⟩ := h
    exact ⟨a, hr, hpq a ha⟩
  | cons f fs => exact h

/-- What follows a fault is not looked at. -/
theorem stop {fault : StubFault} {r : Except StubFault α} (hr : Answers (fault :: fs) P r) (g : α → Except StubFault β) :
    Answers (fault :: gs) R (r >>= g) := by
  have hfault : r = .error fault := hr
  subst hfault
  rfl

/-- The faults of a part come before those of what follows it. -/
theorem bind {r : Except StubFault α} {g : α → Except StubFault β} (hr : Answers fs P r) (hg : ∀ a, P a → Answers gs R (g a)) :
    Answers (fs ++ gs) R (r >>= g) := by
  cases fs with
  | nil =>
    obtain ⟨a, hra, ha⟩ := hr
    subst hra
    exact hg a ha
  | cons f fs => exact hr.stop g

/-- A last step that cannot fail. -/
theorem map {r : Except StubFault α} {g : α → β} (hr : Answers fs P r) (hg : ∀ a, P a → R (g a)) :
    Answers fs R (do let a ← r; return g a) := by
  have h : Answers (fs ++ []) R (r >>= fun a => .ok (g a)) := hr.bind fun a ha => ok (hg a ha)
  rwa [List.append_nil] at h

/-- The faults of a list of parts are those of the parts in order. -/
theorem mapM {γ : Type} {f : γ → Except StubFault α} {faults : γ → List StubFault} {P : γ → α → Prop}
    (hf : ∀ x, Answers (faults x) (P x) (f x)) (xs : List γ) :
    Answers (xs.flatMap faults) (List.Forall₂ P xs) (xs.mapM f) := by
  induction xs with
  | nil => exact ok .nil
  | cons x xs ih =>
    rw [List.flatMap_cons, List.mapM_cons]
    exact (hf x).bind fun a ha => ih.map fun as has => .cons ha has

end Answers

/-! ## Types and functions -/

/-- A type applied to another is written with the brackets around its argument. -/
theorem Brackets.wrap_eq (b : Brackets) (outer inner : String) : b.wrap outer inner = outer ++ b.pair.1 ++ inner ++ b.pair.2 := by
  cases b <;> rfl

namespace Stub

variable (c : Config) (function : String)

/-- An item type is at fault if nothing stands for it, and else is mapped to what does. -/
theorem mapItem_answers (item : ItemType) :
    Answers (if item.target? c = none then [.unsupportedType function item.text] else []) (item.target? c = some ·)
      (mapItem c function item) := by
  cases item with
  | atomic name =>
    rw [mapItem, ItemType.target?]
    cases h : c.types.get? name.text with
    | none => rfl
    | some type => exact .ok rfl
  | kindTest | anyItem | emptySequence => rfl

/-- A type is mapped to its target unless it is at fault. -/
theorem mapType_answers (t : SequenceType) : Answers (t.faults c function) (t.Target c) (mapType c function t) := by
  obtain ⟨item, occurrence⟩ := t
  refine (mapItem_answers c function item).bind fun type htype => ?_
  cases occurrence with
  | exactlyOne => exact .ok (.exactlyOne htype)
  | optional => exact .ok (c.brackets.wrap_eq .. ▸ .optional htype)
  | zeroOrMore =>
    refine .ok ?_
    rw [Brackets.wrap_eq, Brackets.wrap_eq]
    simpa only [String.append_assoc] using SequenceType.Target.zeroOrMore htype
  | oneOrMore => rfl

/-- A parameter is mapped to its name and the target of its type unless that is at fault. -/
theorem mapParam_answers (p : Param) :
    Answers (SequenceType.faultsOf c function (some p.name.localPart) p.type)
      (fun q => q.1 = p.name.localPart ∧ SequenceType.TargetOf c p.type q.2) (mapParam c function p) := by
  obtain ⟨name, type⟩ := p
  cases type with
  | none => rfl
  | some t => exact (mapType_answers c function t).map fun type h => ⟨rfl, t, rfl, h⟩

/-- A result is mapped to its target unless it is at fault. -/
theorem mapResult_answers (t : Option SequenceType) :
    Answers (SequenceType.faultsOf c function none t) (SequenceType.TargetOf c t) (mapResult c function t) := by
  cases t with
  | none => rfl
  | some t => exact (mapType_answers c function t).mono fun type h => ⟨t, rfl, h⟩

end Stub

/-- The elements of a list that are in `before` or that an earlier element of the list is equal to. -/
def repeatsAfter (before xs : List String) : List String :=
  ((xs.zipIdx before.length).filter fun (x, i) => x ∈ (before ++ xs).take i).map (·.1)

theorem repeats_eq_repeatsAfter (xs : List String) : repeats xs = repeatsAfter [] xs := rfl

/-- A text is repeated if it stands among those before it. -/
theorem repeatsAfter_cons (before : List String) (x : String) (xs : List String) :
    repeatsAfter before (x :: xs) = (if x ∈ before then [x] else []) ++ repeatsAfter (before ++ [x]) xs := by
  have hlater : repeatsAfter (before ++ [x]) xs =
      ((xs.zipIdx (before.length + 1)).filter fun (y, i) => y ∈ (before ++ x :: xs).take i).map (·.1) := by
    simp [repeatsAfter]
  rw [hlater, repeatsAfter, List.zipIdx_cons]
  by_cases h : x ∈ before
  · rw [if_pos h, List.filter_cons_of_pos (by simpa using h)]
    rfl
  · rw [if_neg h, List.filter_cons_of_neg (by simpa using h)]
    rfl

/-- A list in which nothing is repeated. -/
theorem nodup_of_repeats {xs : List String} (h : repeats xs = []) : xs.Nodup := by
  have hafter : ∀ before : List String, before.Nodup → repeatsAfter before xs = [] → (before ++ xs).Nodup := by
    clear h
    induction xs with
    | nil => exact fun before hb _ => (List.append_nil before).symm ▸ hb
    | cons x xs ih =>
      intro before hb h
      rw [repeatsAfter_cons, List.append_eq_nil_iff] at h
      have hx : x ∉ before := fun hx => by simp [hx] at h
      have hsnoc : (before ++ [x]).Nodup := by
        refine List.nodup_append.mpr ⟨hb, List.nodup_singleton x, ?_⟩
        intro a ha b hb' hab
        exact hx (List.mem_singleton.mp hb' ▸ hab ▸ ha)
      have hih := ih (before ++ [x]) hsnoc h.2
      rwa [List.append_assoc] at hih
  rw [repeats_eq_repeatsAfter] at h
  exact hafter [] List.nodup_nil h

/-- Going through a list with the names seen so far finds the first one that is repeated. -/
theorem Stub.repeatedParam?_eq (ps : List Param) : repeatedParam? [] ps = (repeats (ps.map (·.name.localPart))).head? := by
  have hafter : ∀ before seen : List String, (∀ x, x ∈ seen ↔ x ∈ before) →
      repeatedParam? seen ps = (repeatsAfter before (ps.map (·.name.localPart))).head? := by
    induction ps with
    | nil => exact fun _ _ _ => rfl
    | cons p ps ih =>
      intro before seen hseen
      rw [repeatedParam?, List.map_cons, repeatsAfter_cons]
      by_cases h : p.name.localPart ∈ before
      · rw [if_pos ((hseen _).mpr h), if_pos h]
        rfl
      · rw [if_neg (mt (hseen _).mp h), if_neg h]
        exact ih _ _ fun x => by simp [hseen, or_comm]
  rw [repeats_eq_repeatsAfter]
  exact hafter [] [] fun _ => Iff.rfl

/-- The stub of a function, or its first fault. -/
theorem Stub.ofFunction_answers (c : Config) (f : FunctionDecl) : Answers (f.faults c) (f.HasStub c) (ofFunction c f) := by
  rw [ofFunction, repeatedParam?_eq, FunctionDecl.faults]
  cases repeats (f.params.map (·.name.localPart)) with
  | cons x xs => rfl
  | nil =>
    refine (Answers.mapM (mapParam_answers c f.name.text) f.params).bind fun params hparams => ?_
    exact (mapResult_answers c f.name.text f.returnType).map fun returnType hreturn => ⟨rfl, hparams, hreturn⟩

/-! ## Containers and modules -/

/-- The line of a stub is its text behind the indentation. -/
theorem Stub.written_eq (c : Config) (s : Stub) : written c s = c.indent ++ s.text c := by
  have hparam : paramText c.palette = writtenParam c.palette := by
    funext q
    simp only [paramText, writtenParam, Palette.dimmed, Palette.inGreen, String.append_assoc]
  unfold written text
  dsimp only
  rw [hparam]
  simp only [Palette.dimmed, Palette.inGreen, Palette.inBlue, String.append_assoc]

/-- The lines of a container in terms of styles. -/
theorem Stub.containerLines_eq (c : Config) (name : String) (stubs : List Stub) :
    containerLines c name stubs = (c.palette.dimmed "object" ++ " " ++ c.palette.inBlue name ++ " " ++ c.palette.dimmed "\x7b") ::
      (stubs.map (fun s => c.indent ++ s.text c) ++ [c.palette.dimmed "\x7d"]) := by
  rw [containerLines, funext (written_eq c)]
  simp only [Palette.dimmed, Palette.inBlue, String.append_assoc]

/-- A container is written as its lines. -/
theorem Stub.container_eq (c : Config) (name : String) (stubs : List Stub) :
    container c name stubs = Text.unlines (containerLines c name stubs) := by
  have hlines : String.join (stubs.map (line c)) = Text.unlines (stubs.map fun s => c.indent ++ s.text c) := by
    rw [Text.unlines, List.map_map]
    rfl
  rw [containerLines_eq, container, hlines, Text.unlines_cons, Text.unlines_append]
  simp [String.append_assoc]

/-- The capital form of a character is not empty. -/
theorem Text.upperChar_ne_nil (c : Char) : upperChar c ≠ [] := by
  unfold upperChar
  split
  · exact List.cons_ne_nil _ _
  · unfold recase
    split
    · rename_i ns hlookup
      have hexpansions : ∀ e ∈ upperExpansions, 0 < e.2.length := by decide +kernel
      obtain ⟨before, after, hmem, -⟩ := List.lookup_eq_some_iff.mp hlookup
      rw [Ne, List.map_eq_nil_iff, ← Ne, ← List.length_pos_iff]
      exact hexpansions (c.toNat, ns) (by simp [hmem])
    · exact List.cons_ne_nil _ _

/-- A name with a capital is not empty if it has a character. -/
theorem Text.titleCase_ne_empty {name : String} {first : Char} {rest : List Char} (h : name.toList = first :: rest) :
    titleCase name ≠ "" := by
  rw [titleCase, h, Ne, ← String.toList_inj, String.toList_ofList]
  exact fun hnil => upperChar_ne_nil first (List.append_eq_nil_iff.mp hnil).1

/-- The container for a prefix has the name of the prefix with a capital. -/
theorem Config.containerName_eq_titleCase (c : Config) {p : String} {first : Char} {rest : List Char} (h : p.toList = first :: rest) :
    c.containerName p = Text.titleCase p := by
  rw [containerName, Text.titleCase, h]
  rfl

/-- A group has the name of the container for its prefix. -/
theorem NamespaceGroup.containerName_ofPrefix (c : Config) (fs : List FunctionDecl) (p : String) :
    (ofPrefix fs p).containerName c = c.containerName p := by
  rw [containerName, ofPrefix, objectName]
  cases hp : p.toList with
  | nil =>
    obtain rfl := String.toList_eq_nil_iff.mp hp
    rfl
  | cons first rest =>
    rw [if_neg (mt String.isEmpty_iff.mp (Text.titleCase_ne_empty hp)), c.containerName_eq_titleCase hp]

/-- If every function has a stub, only the name of a container can be at fault, and it is the first one that is repeated. -/
theorem containersOf_answers (c : Config) {m : Module} (hm : m.functions.flatMap (·.faults c) = []) (ps : List String) :
    Answers ((repeats (ps.map c.containerName)).map .duplicateContainer) (List.Forall₂ (m.HasContainer c) ps)
      (containersOf c [] (ps.map (NamespaceGroup.ofPrefix m.functions))) := by
  have hafter : ∀ before names : List String, (∀ x, x ∈ names ↔ x ∈ before) →
      Answers ((repeatsAfter before (ps.map c.containerName)).map .duplicateContainer) (List.Forall₂ (m.HasContainer c) ps)
        (containersOf c names (ps.map (NamespaceGroup.ofPrefix m.functions))) := by
    induction ps with
    | nil => exact fun _ _ _ => .ok .nil
    | cons p ps ih =>
      intro before names hnames
      rw [List.map_cons, List.map_cons, containersOf, NamespaceGroup.containerName_ofPrefix, repeatsAfter_cons]
      by_cases h : c.containerName p ∈ before
      · rw [if_pos ((hnames _).mpr h), if_pos h]
        rfl
      · rw [if_neg (mt (hnames _).mp h), if_neg h, List.nil_append]
        have hnone : (FunctionDecl.withPrefix m.functions p).flatMap (·.faults c) = [] := by
          rw [List.flatMap_eq_nil_iff] at hm ⊢
          exact fun f hf => hm f (FunctionDecl.mem_withPrefix.mp hf).1
        have hstubs := Answers.mapM (Stub.ofFunction_answers c) (FunctionDecl.withPrefix m.functions p)
        rw [hnone] at hstubs
        refine hstubs.bind fun stubs hs => ?_
        exact (ih (before ++ [c.containerName p]) _ fun x => by simp [hnames, or_comm]).map
          fun rest hrest => .cons ⟨stubs, hs, Stub.container_eq ..⟩ hrest
  rw [repeats_eq_repeatsAfter]
  exact hafter [] [] fun _ => Iff.rfl

/-- A module is at fault as a whole, or its text is written. -/
theorem Module.emit_answers (c : Config) (m : Module) : Answers (m.faults c) (m.HasText c) (m.emit c) := by
  have hfunctions := Answers.mapM (Stub.ofFunction_answers c) m.functions
  rw [emit, faults, NamespaceGroup.ofFunctions_eq]
  cases hm : m.functions.flatMap (·.faults c) with
  | cons fault faults =>
    rw [hm] at hfunctions
    exact hfunctions.stop _
  | nil =>
    rw [hm] at hfunctions
    refine hfunctions.bind fun _ _ => ?_
    exact (containersOf_answers c hm (FunctionDecl.prefixes m.functions)).map fun containers h => ⟨containers, h, rfl⟩

/-- A line of some lines stands in their text. -/
theorem Text.exists_around_unlines {l : String} {ls : List String} (h : l ∈ ls) :
    ∃ before after, unlines ls = before ++ l ++ "\n" ++ after := by
  obtain ⟨ks, ms, rfl⟩ := List.append_of_mem h
  exact ⟨unlines ks, unlines ms, by simp [String.append_assoc]⟩

/-- A text of some texts stands in what they make with something between them. -/
theorem Text.exists_around_intercalate (s : String) {t : String} {ts : List String} (h : t ∈ ts) :
    ∃ before after, String.intercalate s ts = before ++ t ++ after := by
  induction ts with
  | nil => cases h
  | cons u us ih =>
    by_cases hnil : us = []
    · subst hnil
      obtain rfl := List.mem_singleton.mp h
      exact ⟨"", "", by simp⟩
    rw [String.intercalate_cons_of_ne_nil hnil]
    rcases List.mem_cons.mp h with rfl | h
    · exact ⟨"", s ++ String.intercalate s us, by simp [String.append_assoc]⟩
    · obtain ⟨before, after, he⟩ := ih h
      exact ⟨u ++ s ++ before, after, by rw [he]; simp only [String.append_assoc]⟩

/-- In the text of a module each function has a line of its own, with the types of its parameters and of its result in it. -/
theorem Module.HasText.exists_line {c : Config} {m : Module} {text : String} (h : m.HasText c text) {f : FunctionDecl}
    (hf : f ∈ m.functions) : ∃ s, f.HasStub c s ∧ ∃ before after, text = before ++ s.written c ++ "\n" ++ after := by
  obtain ⟨containers, hcontainers, rfl⟩ := h
  have hp : f.name.qualifierText ∈ FunctionDecl.prefixes m.functions := FunctionDecl.mem_prefixes.mpr ⟨f, hf, rfl⟩
  obtain ⟨_, hcontainer, stubs, hstubs, rfl⟩ := forall₂_mem hcontainers _ hp
  obtain ⟨s, hs, hstub⟩ := forall₂_mem hstubs f (FunctionDecl.mem_withPrefix.mpr ⟨hf, rfl⟩)
  have hline : s.written c ∈ Stub.containerLines c (c.containerName f.name.qualifierText) stubs :=
    List.mem_cons_of_mem _ (List.mem_append_left _ (List.mem_map_of_mem hs))
  obtain ⟨before, after, hin⟩ := Text.exists_around_unlines hline
  obtain ⟨front, behind, hall⟩ := Text.exists_around_intercalate "\n" hcontainer
  exact ⟨s, hstub, front ++ before, after ++ behind, by rw [hall, hin]; simp only [String.append_assoc]⟩

/-- Stubs are written exactly if nothing is at fault. Then the text is a container for each prefix, and each function has its line in it, in
which every type is the one that its sequence type stands for. Otherwise the answer is the first fault. -/
theorem Module.emit_rule (c : Config) (m : Module) :
    match m.faults c with
    | [] => ∃ text, m.emit c = .ok text ∧ m.HasText c text ∧
        ∀ f ∈ m.functions, ∃ s, f.HasStub c s ∧ ∃ before after, text = before ++ s.written c ++ "\n" ++ after
    | fault :: _ => m.emit c = .error fault := by
  have hanswer := m.emit_answers c
  cases hm : m.faults c with
  | cons fault faults =>
    rw [hm] at hanswer
    exact hanswer
  | nil =>
    rw [hm] at hanswer
    obtain ⟨text, htext, hhas⟩ := hanswer
    exact ⟨text, htext, hhas, fun f hf => hhas.exists_line hf⟩

/-- Two functions with a prefix, one of them with parameters of every occurrence that has a type, and one without between them. -/
def Module.typed : Module where
  version := none
  kind := .main
  functions :=
    [⟨⟨some "a", "f"⟩,
        [⟨⟨none, "x"⟩, some ⟨.atomic ⟨some "xs", "string"⟩, .optional⟩⟩, ⟨⟨none, "y"⟩, some ⟨.atomic ⟨some "xs", "boolean"⟩, .zeroOrMore⟩⟩],
        some ⟨.atomic ⟨some "xs", "string"⟩, .exactlyOne⟩, .external, ⟨0, 0⟩⟩,
      ⟨⟨none, "g"⟩, [], some ⟨.atomic ⟨some "xs", "boolean"⟩, .zeroOrMore⟩, .external, ⟨0, 0⟩⟩,
      ⟨⟨some "a", "h"⟩, [], some ⟨.atomic ⟨some "xs", "boolean"⟩, .optional⟩, .external, ⟨0, 0⟩⟩]

set_option maxRecDepth 10000 in
/-- The text of their stubs. With a fourth function that has no type there is none, although it is the container of the third that would come
next. -/
theorem Module.emit_rule_typed :
    (typed.faults { brackets := .square } = [] ∧
      typed.HasText { brackets := .square } ("object A \x7b\n  def f(x: Option[String], y: Option[Array[Boolean]]): String = ???\n" ++
        "  def h(): Option[Boolean] = ???\n\x7d\n\nobject Main \x7b\n  def g(): Option[Array[Boolean]] = ???\n\x7d\n")) ∧
      Module.emit {} { typed with functions := typed.functions ++ [⟨⟨some "b", "k"⟩, [], none, .external, ⟨0, 0⟩⟩] } =
        .error (.missingType "b:k" none) := by
  have hfaults : typed.faults { brackets := .square } = [] := by cbv
  have hemit : typed.emit { brackets := .square } =
      .ok ("object A \x7b\n  def f(x: Option[String], y: Option[Array[Boolean]]): String = ???\n" ++
        "  def h(): Option[Boolean] = ???\n\x7d\n\nobject Main \x7b\n  def g(): Option[Array[Boolean]] = ???\n\x7d\n") := by
    cbv
  have hrule := emit_rule { brackets := .square } typed
  rw [hfaults, hemit] at hrule
  obtain ⟨_, htext, hhas, -⟩ := hrule
  cases htext
  refine ⟨⟨hfaults, hhas⟩, ?_⟩
  have hfault : Module.faults {} { typed with functions := typed.functions ++ [⟨⟨some "b", "k"⟩, [], none, .external, ⟨0, 0⟩⟩] } =
      [.missingType "b:k" none] := by cbv
  have hnone := emit_rule {} { typed with functions := typed.functions ++ [⟨⟨some "b", "k"⟩, [], none, .external, ⟨0, 0⟩⟩] }
  rw [hfault] at hnone
  exact hnone

end QueryStubs
