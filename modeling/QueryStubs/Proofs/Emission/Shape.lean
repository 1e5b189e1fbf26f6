import Mathlib
import QueryStubs.Proofs.Emission.Lines
import QueryStubs.Proofs.Emission.Rule
import QueryStubs.Proofs.Suppression.First
import QueryStubs.Proofs.Views.Names

/-!
# The shape of a text of stubs

Written without colours, the stubs of a module that was read are one block of lines for each prefix: the line that opens the container, a
line for each function with that prefix, and the line that closes it (`Module.emit_shape`). The names in such a module are names, so none
of them ends a line; that the texts which a configuration adds do not either is the condition `Config.Plain`.
-/

namespace QueryStubs

open Text (OneLine)

/-- No colours, a name for every container, and no line feed in a text that is put into a line. -/
structure Config.Plain (c : Config) : Prop where
  palette : c.palette = .off
  named : c.defaultObject ≠ ""
  defaultObject : OneLine c.defaultObject
  placeholder : OneLine c.placeholder
  indent : OneLine c.indent
  types : ∀ e ∈ c.types.entries, OneLine e.2

/-! ## Lines -/

/-- A stub as a line without colours. -/
def Stub.plainLine (c : Config) (s : Stub) : String :=
  c.indent ++ "def " ++ s.name ++ "(" ++ String.intercalate ", " (s.params.map fun q => q.1 ++ ": " ++ q.2) ++ "): " ++ s.returnType ++
    " = " ++ c.placeholder

/-- A line is that of a stub of the function. -/
def FunctionDecl.HasLine (c : Config) (f : FunctionDecl) (line : String) : Prop := ∃ s, f.HasStub c s ∧ line = s.plainLine c

/-- The lines of the container for a prefix, given the line of each function. -/
def Module.block (c : Config) (m : Module) (line : FunctionDecl → String) (p : String) : List String :=
  ("object " ++ c.containerName p ++ " \x7b") :: ((FunctionDecl.withPrefix m.functions p).map line ++ ["\x7d"])

@[simp] theorem Palette.inBlue_off (s : String) : Palette.off.inBlue s = s := by simp [inBlue, off]

@[simp] theorem Palette.inGreen_off (s : String) : Palette.off.inGreen s = s := by simp [inGreen, off]

@[simp] theorem Palette.dimmed_off (s : String) : Palette.off.dimmed s = s := by simp [dimmed, off]

namespace Stub

/-- Without colours these are the lines of a block. -/
theorem containerLines_plain {c : Config} (hc : c.palette = .off) (name : String) (stubs : List Stub) :
    containerLines c name stubs = ("object " ++ name ++ " \x7b") :: (stubs.map (plainLine c) ++ ["\x7d"]) := by
  have hparam : writtenParam .off = fun q => q.1 ++ ": " ++ q.2 := by
    funext q
    simp [writtenParam, Palette.off, String.append_assoc]
  have hline : written c = plainLine c := by
    funext s
    unfold written plainLine
    dsimp only
    rw [hc, hparam]
    simp only [Palette.off, String.append_assoc, String.empty_append]
    rfl
  rw [containerLines, hline]
  simp [hc, Palette.off, String.append_assoc]

end Stub

/-- What is true of the types of the table and kept where types are applied is true of every type that a sequence type stands for. -/
theorem SequenceType.TargetOf.of_entries {P : String → Prop} {c : Config} {t : Option SequenceType} {type : String} (h : TargetOf c t type)
    (hentries : ∀ e ∈ c.types.entries, P e.2) (hwrap : ∀ outer ∈ ["Option", "Array"], ∀ inner, P inner → P (c.brackets.wrap outer inner)) :
    P type := by
  obtain ⟨u, -, htype⟩ := h
  have hitem : ∀ {item : ItemType} {base : String}, item.target? c = some base → P base := by
    intro item base h
    cases item with
    | atomic name =>
      obtain ⟨before, after, hmem, -⟩ := List.lookup_eq_some_iff.mp h
      exact hentries (name.text, base) (by simp [hmem])
    | kindTest | anyItem | emptySequence => cases h
  cases htype with
  | exactlyOne h => exact hitem h
  | optional h => exact c.brackets.wrap_eq .. ▸ hwrap _ (by decide) _ (hitem h)
  | zeroOrMore h =>
    have hboth := hwrap "Option" (by decide) _ (hwrap "Array" (by decide) _ (hitem h))
    rw [Brackets.wrap_eq, Brackets.wrap_eq] at hboth
    simpa only [String.append_assoc] using hboth

/-- A type applied to another has no characters but theirs and brackets. -/
theorem Brackets.not_mem_wrap {x : Char} (b : Brackets) {outer inner : String} (hx : x ∉ ['<', '>', '[', ']']) (ho : x ∉ outer.toList)
    (hi : x ∉ inner.toList) : x ∉ (b.wrap outer inner).toList := by
  cases b <;> simp_all [wrap]

namespace Config.Plain

variable {c : Config} (hc : c.Plain)

include hc

theorem target {t : Option SequenceType} {type : String} (h : SequenceType.TargetOf c t type) : OneLine type :=
  h.of_entries hc.types fun _ houter _ hinner =>
    c.brackets.not_mem_wrap (by decide) ((by decide : ∀ s ∈ ["Option", "Array"], OneLine s) _ houter) hinner

/-- The name of a container is there and stays on its line. -/
theorem containerName {p : String} (hp : p = "" ∨ IsNCName p) : c.containerName p ≠ "" ∧ OneLine (c.containerName p) := by
  rcases hp with rfl | hp
  · exact ⟨hc.named, hc.defaultObject⟩
  · obtain ⟨first, rest, hcs, -, -⟩ := hp.toList
    have hname := c.containerName_eq_titleCase hcs
    rw [hname]
    refine ⟨fun hempty => ?_, .titleCase hp⟩
    exact Text.titleCase_ne_empty hcs hempty

/-- A stub stays on its line if the names in it are names. -/
theorem plainLine {f : FunctionDecl} {s : Stub} (hf : f.name.Writable ∧ ∀ p ∈ f.params, p.name.Writable) (h : f.HasStub c s) :
    OneLine (s.plainLine c) := by
  have hname : OneLine s.name := h.name ▸ .camelCase hf.1.1
  have hparams : ∀ l ∈ s.params.map fun q => q.1 ++ ": " ++ q.2, OneLine l := by
    intro l hl
    obtain ⟨q, hq, rfl⟩ := List.mem_map.mp hl
    obtain ⟨p, hp, hname, htype⟩ := forall₂_mem h.params.flip q hq
    have hlocal : OneLine q.1 := hname ▸ .of_isNCName (hf.2 p hp).1
    exact (hlocal.append (by decide)).append (hc.target htype)
  have hlist := OneLine.intercalate (s := ", ") (by decide) hparams
  exact ((((((((hc.indent.append (by decide)).append hname).append (by decide)).append hlist).append (by decide)).append
    (hc.target h.returnType)).append (by decide)).append hc.placeholder)

/-- Every line of a block stays on its line and has something in it. -/
theorem block {m : Module} {stub : FunctionDecl → Stub} (hnames : ∀ f ∈ m.functions, f.name.Writable ∧ ∀ p ∈ f.params, p.name.Writable)
    (hstub : ∀ f ∈ m.functions, f.HasStub c (stub f)) {p : String} (hp : p = "" ∨ IsNCName p) :
    ∀ l ∈ m.block c (fun f => (stub f).plainLine c) p, OneLine l ∧ l ≠ "" := by
  intro l hl
  rcases List.mem_cons.mp hl with rfl | hl
  · refine ⟨(OneLine.append (by decide) (hc.containerName hp).2).append (by decide), ?_⟩
    simp
  rcases List.mem_append.mp hl with hl | hl
  · obtain ⟨f, hf, rfl⟩ := List.mem_map.mp hl
    have hf := (FunctionDecl.mem_withPrefix.mp hf).1
    refine ⟨hc.plainLine (hnames f hf) (hstub f hf), ?_⟩
    simp [Stub.plainLine]
  · rw [List.mem_singleton.mp hl]
    decide

end Config.Plain

/-! ## Texts -/

/-- What corresponds to the elements of a list is their image where it is determined. -/
theorem eq_map_of_forall₂ {α β : Type} {R : α → β → Prop} {f : α → β} {xs : List α} {ys : List β} (h : List.Forall₂ R xs ys)
    (hf : ∀ x ∈ xs, ∀ y, R x y → y = f x) : ys = xs.map f := by
  induction h with
  | nil => rfl
  | cons hr _ ih =>
    obtain ⟨hx, hxs⟩ := List.forall_mem_cons.mp hf
    rw [List.map_cons, ← hx _ hr, ih hxs]

/-- If stubs are written, nothing is at fault. -/
theorem Module.of_emit {c : Config} {m : Module} {text : String} (h : m.emit c = .ok text) : m.faults c = [] ∧ m.HasText c text := by
  have hrule := m.emit_answers c
  cases hm : m.faults c with
  | cons fault faults =>
    rw [hm, h] at hrule
    cases hrule
  | nil =>
    rw [hm, h] at hrule
    obtain ⟨_, he, htext⟩ := hrule
    cases he
    exact ⟨rfl, htext⟩

/-- The lines of the containers of a module, given the stub of each function. -/
def Module.stubLines (c : Config) (m : Module) (stub : FunctionDecl → Stub) : List String :=
  [""].intercalate ((FunctionDecl.prefixes m.functions).map fun p =>
    Stub.containerLines c (c.containerName p) ((FunctionDecl.withPrefix m.functions p).map stub))

/-- A text is made of these lines. -/
theorem Module.HasText.lines {c : Config} {m : Module} {text : String} (h : m.HasText c text)
    {stub : FunctionDecl → Stub} (hstub : ∀ f ∈ m.functions, f.HasStub c (stub f)) : text = Text.unlines (m.stubLines c stub) := by
  obtain ⟨containers, hcontainers, rfl⟩ := h
  rw [stubLines, ← Text.intercalate_unlines, List.map_map]
  congr 1
  refine eq_map_of_forall₂ hcontainers ?_
  rintro p - _ ⟨stubs, hstubs, rfl⟩
  have heq : stubs = (FunctionDecl.withPrefix m.functions p).map stub :=
    eq_map_of_forall₂ hstubs fun f hf s hs => hs.unique (hstub f (FunctionDecl.mem_withPrefix.mp hf).1)
  rw [heq]
  rfl

/-- Without colours they are those of the blocks of the prefixes. -/
theorem Module.stubLines_plain {c : Config} (hc : c.palette = .off) (m : Module) (stub : FunctionDecl → Stub) :
    m.stubLines c stub = [""].intercalate ((FunctionDecl.prefixes m.functions).map (m.block c fun f => (stub f).plainLine c)) := by
  have hblock : ∀ p, Stub.containerLines c (c.containerName p) ((FunctionDecl.withPrefix m.functions p).map stub) =
      m.block c (fun f => (stub f).plainLine c) p := by
    intro p
    rw [Stub.containerLines_plain hc, block, List.map_map]
    rfl
  simp only [stubLines, hblock]

/-- A text without colours is made of the blocks of the prefixes. -/
theorem Module.HasText.blocks {c : Config} {m : Module} {text : String} (h : m.HasText c text) (hc : c.palette = .off)
    {stub : FunctionDecl → Stub} (hstub : ∀ f ∈ m.functions, f.HasStub c (stub f)) :
    text = String.intercalate "\n"
      (((FunctionDecl.prefixes m.functions).map (m.block c fun f => (stub f).plainLine c)).map Text.unlines) := by
  rw [h.lines hstub, Module.stubLines_plain hc, Text.intercalate_unlines]

theorem Text.getLast?_closed (s : String) : (s ++ "\x7d").toList.getLast? ≠ some '\n' := by
  have hbrace : "\x7d".toList = ['\x7d'] := rfl
  rw [String.toList_append, hbrace, List.getLast?_concat]
  decide

/-- Inside the blocks stands the line of each function, once. -/
theorem Module.perm_inside (c : Config) (m : Module) (line : FunctionDecl → String) :
    (((FunctionDecl.prefixes m.functions).map (m.block c line)).flatMap fun b => b.tail.dropLast).Perm (m.functions.map line) := by
  have hinside : ∀ p, (m.block c line p).tail.dropLast = (FunctionDecl.withPrefix m.functions p).map line := by
    intro p
    rw [block, List.tail_cons, List.dropLast_concat]
  have hall : ((FunctionDecl.prefixes m.functions).map (m.block c line)).flatMap (fun b => b.tail.dropLast) =
      ((FunctionDecl.prefixes m.functions).flatMap (FunctionDecl.withPrefix m.functions)).map line := by
    rw [List.flatMap_map, List.map_flatMap]
    exact List.flatMap_congr fun p _ => hinside p
  rw [hall]
  exact (FunctionDecl.flatMap_withPrefix_perm m.functions).map line

/-- Blocks end their text with one line feed, because the last line of each has something in it. -/
theorem Text.ends_of_blocks {bs : List (List String)} (hnone : bs ≠ []) (hclosed : ∀ b ∈ bs, ∃ ls, b = ls ++ ["\x7d"]) :
    ∃ front, String.intercalate "\n" (bs.map Text.unlines) = front ++ "\n" ∧ front.toList.getLast? ≠ some '\n' := by
  rcases List.eq_nil_or_concat bs with hbs | ⟨bs', b, hbs⟩
  · exact absurd hbs hnone
  · obtain ⟨ls, hb⟩ := hclosed b (by simp [hbs])
    have hlast : Text.unlines b = Text.unlines ls ++ "\x7d" ++ "\n" := by simp [hb, String.append_assoc]
    by_cases hnil : bs' = []
    · refine ⟨Text.unlines ls ++ "\x7d", ?_, getLast?_closed _⟩
      simp [hbs, hnil, hlast]
    · refine ⟨String.intercalate "\n" (bs'.map Text.unlines) ++ "\n" ++ Text.unlines ls ++ "\x7d", ?_, getLast?_closed _⟩
      rw [hbs, List.concat_eq_append, List.map_append, String.intercalate_append_of_ne_nil (by simpa using hnil) (by simp)]
      simp [hlast, String.append_assoc]

/-- Every name in a module that was read is a name. -/
theorem Module.names_writable {source : String} {m : Module} (h : parse source = .ok m) :
    ∀ f ∈ m.functions, f.name.Writable ∧ ∀ p ∈ f.params, p.name.Writable := by
  obtain ⟨-, rfl⟩ := parse_ok_iff.mp h
  exact fun f hf => Parsed.names_writable hf

/-- So is every prefix of functions with such names, if it is one. -/
theorem FunctionDecl.prefixes_writable {fs : List FunctionDecl} (h : ∀ f ∈ fs, f.name.Writable) :
    ∀ p ∈ prefixes fs, p = "" ∨ IsNCName p := by
  intro p hp
  obtain ⟨f, hf, rfl⟩ := mem_prefixes.mp hp
  unfold QName.qualifierText
  cases hq : f.name.qualifier with
  | none => exact .inl rfl
  | some q => exact .inr ((h f hf).2 q hq)

/-- If no function has a fault, each has a stub. -/
theorem Module.exists_stubs {c : Config} {m : Module} (h : m.functions.flatMap (·.faults c) = []) :
    ∃ stub : FunctionDecl → Stub, ∀ f ∈ m.functions, f.HasStub c (stub f) := by
  have hstubs : ∀ f, ∃ s, f ∈ m.functions → f.HasStub c s := by
    intro f
    by_cases hf : f ∈ m.functions
    · have hanswer := Stub.ofFunction_answers c f
      rw [List.flatMap_eq_nil_iff.mp h f hf] at hanswer
      obtain ⟨s, -, hs⟩ := hanswer
      exact ⟨s, fun _ => hs⟩
    · exact ⟨⟨"", [], ""⟩, fun h => absurd h hf⟩
  choose stub hstub using hstubs
  exact ⟨stub, hstub⟩

/-- Stubs that are written for a module that was read, without colours: the text is empty if there are no functions. Otherwise it ends with one
line feed, and its blocks are those of the prefixes, in the order in which these are first seen; each opens with the name of its container,
which no other block has, goes on with the lines of the functions with that prefix, and is closed. So each function has exactly one line. -/
theorem Module.emit_shape {source : String} {m : Module} {c : Config} {text : String} (hm : Module.parse source = .ok m) (hc : c.Plain)
    (h : m.emit c = .ok text) :
    (text = "" ↔ m.functions = []) ∧ (m.containerNames c).Nodup ∧ "" ∉ m.containerNames c ∧
      ∃ line : FunctionDecl → String, (∀ f ∈ m.functions, f.HasLine c (line f)) ∧
        (m.functions ≠ [] →
          (∃ front, text = front ++ "\n" ∧ front.toList.getLast? ≠ some '\n') ∧
            Text.blocks text = (FunctionDecl.prefixes m.functions).map (m.block c line) ∧
              ((Text.blocks text).flatMap fun b => b.tail.dropLast).Perm (m.functions.map line)) := by
  obtain ⟨hfaults, htext⟩ := Module.of_emit h
  obtain ⟨hfunctions, hrepeats⟩ := List.append_eq_nil_iff.mp hfaults
  have hnames := Module.names_writable hm
  have hprefixes := FunctionDecl.prefixes_writable fun f hf => (hnames f hf).1
  obtain ⟨stub, hstub⟩ := Module.exists_stubs hfunctions
  have hblocks := htext.blocks hc.palette hstub
  have hlines := fun p hp => hc.block hnames hstub (hprefixes p hp)
  have hends : m.functions ≠ [] → ∃ front, text = front ++ "\n" ∧ front.toList.getLast? ≠ some '\n' := by
    intro hsome
    rw [hblocks]
    refine Text.ends_of_blocks ?_ fun b hb => ?_
    · rw [Ne, List.map_eq_nil_iff, FunctionDecl.prefixes_eq_nil]
      exact hsome
    · obtain ⟨p, -, rfl⟩ := List.mem_map.mp hb
      exact ⟨_ :: _, rfl⟩
  refine ⟨⟨fun hempty => ?_, fun hnone => ?_⟩, nodup_of_repeats (List.map_eq_nil_iff.mp hrepeats), ?_, fun f => (stub f).plainLine c,
    fun f hf => ⟨stub f, hstub f hf, rfl⟩, fun hsome => ⟨hends hsome, ?_⟩⟩
  · by_contra hsome
    obtain ⟨front, hfront, -⟩ := hends hsome
    simp [hfront] at hempty
  · rw [hblocks, FunctionDecl.prefixes_eq_nil.mpr hnone]
    rfl
  · intro hmem
    obtain ⟨p, hp, hname⟩ := List.mem_map.mp hmem
    exact (hc.containerName (hprefixes p hp)).1 hname
  · have hbs : Text.blocks text = (FunctionDecl.prefixes m.functions).map (m.block c fun f => (stub f).plainLine c) := by
      rw [hblocks]
      refine Text.blocks_unlines ?_ ?_ ?_
      · rw [Ne, List.map_eq_nil_iff, FunctionDecl.prefixes_eq_nil]
        exact hsome
      · intro b hb l hl
        obtain ⟨p, hp, rfl⟩ := List.mem_map.mp hb
        exact (hlines p hp l hl).1
      · intro b hb hl
        obtain ⟨p, hp, rfl⟩ := List.mem_map.mp hb
        exact (hlines p hp "" hl).2 rfl
    exact ⟨hbs, hbs ▸ m.perm_inside c _⟩

/-- Two functions with a prefix and one without between them. -/
def Module.interleaved : Module where
  version := none
  kind := .main
  functions :=
    [⟨⟨some "a", "f"⟩, [], some ⟨.atomic ⟨some "xs", "string"⟩, .exactlyOne⟩, .external, ⟨0, 45⟩⟩,
      ⟨⟨none, "g"⟩, [], some ⟨.atomic ⟨some "xs", "string"⟩, .exactlyOne⟩, .external, ⟨45, 88⟩⟩,
      ⟨⟨some "a", "h"⟩, [], some ⟨.atomic ⟨some "xs", "boolean"⟩, .exactlyOne⟩, .external, ⟨89, 135⟩⟩]

set_option maxRecDepth 10000 in
/-- They make two blocks. -/
theorem Module.emit_shape_interleaved :
    Module.parse "declare function a:f() as xs:string external;declare function g() as xs:string external;
declare function a:h() as xs:boolean external;" = .ok interleaved ∧ Config.Plain {} ∧
      ∃ text, interleaved.emit {} = .ok text ∧ text ≠ "" ∧ (Text.blocks text).length = 2 := by
  have hm : Module.parse "declare function a:f() as xs:string external;declare function g() as xs:string external;
declare function a:h() as xs:boolean external;" = .ok interleaved := by
    cbv
  have hc : Config.Plain {} := ⟨rfl, by decide, by decide, by decide, by decide, by decide⟩
  have h : interleaved.emit {} = .ok
      "object A \x7b\n  def f(): String = ???\n  def h(): Boolean = ???\n\x7d\n\nobject Main \x7b\n  def g(): String = ???\n\x7d\n" := by
    cbv
  obtain ⟨-, -, -, line, -, hblocks⟩ := emit_shape hm hc h
  obtain ⟨-, hblocks, -⟩ := hblocks (List.cons_ne_nil _ _)
  refine ⟨hm, hc, _, h, by decide, ?_⟩
  rw [hblocks]
  rfl

end QueryStubs
